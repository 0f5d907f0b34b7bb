import Bidding.Tables.Overlay

/-!
# The pending records over a page

A pending record is entered under its lineage and takes the place of the row its lineage has on the page. What
the deletions, the patches and then the pending records make of the row of every id is said here in one piece.
-/

namespace Bidding.Tables

open Foundations List Dict

section Lineages

variable {normalize : Record → Record} {matchesQuery : Record → Bool} {records : List Record} {byRoot : Dict String Record}

theorem newerPendingVersion_eq (left right : Record) :
    newerPendingVersion left right = left ∨ newerPendingVersion left right = right := by
  unfold newerPendingVersion
  split
  · split_ifs <;> simp
  · exact Or.inl rfl

def EnteredByRoot (records : List Record) (byRoot : Dict String Record) : Prop :=
  ∀ root record, byRoot.get? root = some record → pendingRecordRoot record = root ∧ record ∈ records

theorem EnteredByRoot.enterLatest {rawRecord : Record}
    (h : EnteredByRoot records byRoot) (hmem : normalize rawRecord ∈ records) :
    EnteredByRoot records (enterLatest normalize byRoot rawRecord) := by
  intro root record hget
  unfold Tables.enterLatest at hget
  dsimp only at hget
  split at hget
  · exact h root record hget
  split at hget
  · rename_i left hleft
    obtain ⟨hroot, hleftMem⟩ := h _ left hleft
    rw [Dict.get?_set] at hget
    split at hget
    · rename_i heq
      cases hget
      rcases newerPendingVersion_eq left (normalize rawRecord) with hnewer | hnewer
      · rw [hnewer]
        exact ⟨hroot.trans heq.symm, hleftMem⟩
      · rw [hnewer]
        exact ⟨heq.symm, hmem⟩
    · exact h root record hget
  · rw [Dict.get?_set] at hget
    split at hget
    · rename_i heq
      cases hget
      exact ⟨heq.symm, hmem⟩
    · exact h root record hget

theorem enteredByRoot_foldl (records : List Record) (pending : List Record) (byRoot : Dict String Record)
    (hsub : ∀ record ∈ pending, normalize record ∈ records) (h : EnteredByRoot records byRoot) :
    EnteredByRoot records (pending.foldl (Tables.enterLatest normalize) byRoot) := by
  induction pending generalizing byRoot with
  | nil => exact h
  | cons record pending ih =>
    rw [foldl_cons]
    apply ih
    · exact fun other hother => hsub other (mem_cons_of_mem record hother)
    · exact h.enterLatest (hsub record mem_cons_self)

theorem enteredByRoot_latest (upserts : List Record) :
    EnteredByRoot (upserts.map normalize) (upserts.foldl (Tables.enterLatest normalize) empty) := by
  apply enteredByRoot_foldl
  · exact fun record hrecord => mem_map_of_mem hrecord
  · intro root record hget
    cases hget

theorem mem_of_mem_latest {upserts : List Record} {record : Record}
    (h : record ∈ latestPendingUpserts normalize upserts) : record ∈ upserts.map normalize := by
  obtain ⟨root, hget⟩ := (mem_values_iff _ record).mp h
  exact (enteredByRoot_latest upserts root record hget).2

theorem map_root_of_entered (h : EnteredByRoot records byRoot) : byRoot.values.map pendingRecordRoot = byRoot.keys := by
  rw [values, Dict.keys, map_map]
  apply map_congr_left
  rintro ⟨root, record⟩ hentry
  exact (h root record ((byRoot.mem_entries_iff root record).mp hentry)).1

theorem nodup_roots_latest (upserts : List Record) :
    ((latestPendingUpserts normalize upserts).map pendingRecordRoot).Nodup := by
  rw [latestPendingUpserts, map_root_of_entered (enteredByRoot_latest upserts)]
  exact (upserts.foldl (Tables.enterLatest normalize) empty).nodupKeys

theorem get?_isSome_of_id {record : Record} (h : idText record ≠ "") : ∃ value, record.get? "id" = some value := by
  cases hget : record.get? "id" with
  | none =>
    refine absurd ?_ h
    unfold idText fieldText
    rw [hget]
  | some value => exact ⟨value, rfl⟩

theorem idText_spread (base : Record) {upper : Record} (h : idText upper ≠ "") : idText (base.spread upper) = idText upper := by
  obtain ⟨value, hvalue⟩ := get?_isSome_of_id h
  unfold idText fieldText
  rw [Dict.get?_spread, hvalue]
  rfl

theorem pendingRecordRoot_congr {left right : Record} (hroot : left.get? "rootId" = right.get? "rootId")
    (hid : idText left = idText right) : pendingRecordRoot left = pendingRecordRoot right := by
  unfold pendingRecordRoot
  have htruthy : fieldTruthy left "rootId" = fieldTruthy right "rootId" := by
    unfold fieldTruthy
    rw [hroot]
  have htext : fieldText left "rootId" = fieldText right "rootId" := by
    unfold fieldText
    rw [hroot]
  rw [htruthy, htext]
  exact congrArg _ hid

theorem pendingRecordRoot_spread {base upper : Record} (hid : idText base = idText upper) (hblank : idText upper ≠ "")
    (hroot : upper.get? "rootId" = none ∨ pendingRecordRoot upper = pendingRecordRoot base) :
    pendingRecordRoot (base.spread upper) = pendingRecordRoot base := by
  have hspread : (base.spread upper).get? "rootId" = (upper.get? "rootId").or (base.get? "rootId") :=
    Dict.get?_spread base upper "rootId"
  cases hupper : upper.get? "rootId" with
  | none =>
    rw [hupper] at hspread
    exact pendingRecordRoot_congr hspread ((idText_spread base hblank).trans hid.symm)
  | some value =>
    have hsame : pendingRecordRoot (base.spread upper) = pendingRecordRoot upper := by
      rw [hupper] at hspread
      exact pendingRecordRoot_congr (hspread.trans hupper.symm) (idText_spread base hblank)
    rw [hsame]
    apply hroot.resolve_left
    rw [hupper]
    simp

theorem pendingRecordRoot_spread_empty (record : Record) :
    pendingRecordRoot (empty.spread record) = pendingRecordRoot record := by
  have hget (field : String) : (empty.spread record).get? field = record.get? field := by
    rw [Dict.get?_spread]
    exact Option.or_none
  apply pendingRecordRoot_congr (hget "rootId")
  unfold idText fieldText
  rw [hget]

theorem entryById_eq {record : Record} (h : idText record ≠ "") : entryById record = some (idText record, record) := by
  obtain ⟨value, hget⟩ := get?_isSome_of_id h
  have htruthy : value.jsTruthy = true := by
    by_contra hfalsy
    apply h
    unfold idText fieldText
    rw [hget]
    exact if_neg hfalsy
  have htext : idText record = value.jsString := by
    unfold idText fieldText
    rw [hget]
    exact if_pos htruthy
  rw [htext]
  unfold entryById
  rw [hget]
  cases value with
  | null => exact absurd htruthy (by decide)
  | _ => rfl

theorem get?_pageById {items : List Record} (hids : ∀ row ∈ items.map normalize, idText row ≠ "")
    (hnodup : ((items.map normalize).map idText).Nodup) (id : String) (row : Record) :
    (pageById normalize items).get? id = some row ↔ row ∈ items.map normalize ∧ idText row = id := by
  have hentries : (items.map normalize).filterMap entryById =
      (items.map normalize).map fun record => (idText record, record) := by
    rw [filterMap_congr fun record hrecord => entryById_eq (hids record hrecord)]
    exact congrFun filterMap_eq_map _
  have hkeys : (((items.map normalize).map fun record => (idText record, record)).map Prod.fst).Nodup := by
    rw [map_map]
    exact hnodup
  have hget : (pageById normalize items).get? id = (⟨_, hkeys⟩ : Dict String Record).get? id := by
    unfold pageById ofList
    rw [hentries, Dict.get?_foldl_set, lookup_reverse_of_nodup hkeys]
    exact Option.or_none
  rw [hget, ← mem_entries_iff, mem_map]
  constructor
  · rintro ⟨other, hother, heq⟩
    obtain ⟨hid, rfl⟩ := Prod.mk.inj heq
    exact ⟨hother, hid⟩
  · rintro ⟨hrow, rfl⟩
    exact ⟨row, hrow, rfl⟩

end Lineages

/-! ## The rows of a page after the deletions and the patches -/

/-- What the rows of a result and the pending edits of its table are: every row is the only one of its id and of
its lineage; an id is pending once, as a record or as a patch; and neither moves a row to another lineage. -/
structure PendingEdits.Sound (normalize : Record → Record) (edits : PendingEdits) (rows : List Record) : Prop where
  ids : ∀ row ∈ rows, idText row ≠ ""
  distinctIds : (rows.map idText).Nodup
  distinctRoots : (rows.map pendingRecordRoot).Nodup
  upsertIds : ((edits.upserts.map normalize).map idText).Nodup
  oneKind : ∀ upsert ∈ edits.upserts, ∀ patch ∈ edits.patches, idText (normalize upsert) ≠ idText (normalize patch)
  upsertRoots : ∀ upsert ∈ edits.upserts, ∀ row ∈ rows, idText row = idText (normalize upsert) →
    pendingRecordRoot row = pendingRecordRoot (normalize upsert)
  patchRoots : ∀ patch ∈ edits.patches, ∀ row ∈ rows, idText row = idText (normalize patch) →
    (normalize patch).get? "rootId" = none ∨ pendingRecordRoot (normalize patch) = pendingRecordRoot row

section Rows

variable {normalize : Record → Record} {matchesQuery : Record → Bool} {edits : PendingEdits} {rows : List Record}
  {id : String}
  {row left : Record}

theorem PendingEdits.Sound.sublist (h : edits.Sound normalize rows) {page : List Record} (hpage : page.Sublist rows) :
    edits.Sound normalize page where
  ids row hrow := h.ids row (hpage.subset hrow)
  distinctIds := (hpage.map idText).nodup h.distinctIds
  distinctRoots := (hpage.map pendingRecordRoot).nodup h.distinctRoots
  upsertIds := h.upsertIds
  oneKind := h.oneKind
  upsertRoots upsert hupsert row hrow := h.upsertRoots upsert hupsert row (hpage.subset hrow)
  patchRoots patch hpatch row hrow := h.patchRoots patch hpatch row (hpage.subset hrow)

theorem patchRow_some {row patch left : Record}
    (h : patchRow normalize matchesQuery id row patch = some left) (hid : idText row = id)
    (hroot : idText row = idText (normalize patch) →
      (normalize patch).get? "rootId" = none ∨ pendingRecordRoot (normalize patch) = pendingRecordRoot row) :
    idText left = id ∧ pendingRecordRoot left = pendingRecordRoot row := by
  unfold patchRow at h
  split at h
  · rename_i hpatch
    have hblank : idText (normalize patch) ≠ "" := by
      rw [hpatch.1]
      exact hpatch.2
    have hrow : idText row = idText (normalize patch) := hid.trans hpatch.1.symm
    split at h
    · cases h
      exact ⟨(idText_spread row hblank).trans hpatch.1, pendingRecordRoot_spread hrow hblank (hroot hrow)⟩
    · cases h
  · cases h
    exact ⟨hid, rfl⟩

theorem foldlM_patchRow_some {patches : List Record}
    (h : patches.foldlM (patchRow normalize matchesQuery id) row = some left) (hid : idText row = id)
    (hroot : ∀ patch ∈ patches, idText row = idText (normalize patch) →
      (normalize patch).get? "rootId" = none ∨ pendingRecordRoot (normalize patch) = pendingRecordRoot row) :
    idText left = id ∧ pendingRecordRoot left = pendingRecordRoot row := by
  induction patches generalizing row with
  | nil =>
    cases h
    exact ⟨hid, rfl⟩
  | cons patch patches ih =>
    rw [foldlM_cons] at h
    obtain ⟨next, hnext, hrest⟩ := Option.bind_eq_some_iff.mp h
    obtain ⟨hnextId, hnextRoot⟩ := patchRow_some hnext hid (hroot patch mem_cons_self)
    have hleft := ih hrest hnextId fun other hother hsame => by
      rw [hnextRoot]
      exact hroot other (mem_cons_of_mem patch hother) (hid.trans (hnextId.symm.trans hsame))
    exact ⟨hleft.1, hleft.2.trans hnextRoot⟩

theorem survivor_some (h : edits.Sound normalize rows) (hrow : row ∈ rows)
    (hleft : survivor normalize matchesQuery edits row = some left) :
    idText left = idText row ∧ pendingRecordRoot left = pendingRecordRoot row := by
  unfold survivor at hleft
  split at hleft
  · cases hleft
  · exact foldlM_patchRow_some hleft rfl fun patch hpatch => h.patchRoots patch hpatch row hrow

theorem survivor_of_pending (h : edits.Sound normalize rows) {row upsert : Record} (hupsert : upsert ∈ edits.upserts)
    (hid : idText row = idText (normalize upsert)) (hlive : idText row ∉ edits.deletes) :
    survivor normalize matchesQuery edits row = some row := by
  unfold survivor
  rw [if_neg hlive]
  have hpatches : ∀ patch ∈ edits.patches, patchRow normalize matchesQuery (idText row) row patch = some row := by
    intro patch hpatch
    unfold patchRow
    rw [if_neg]
    intro hsame
    exact h.oneKind upsert hupsert patch hpatch (hid.symm.trans hsame.1.symm)
  generalize edits.patches = patches at hpatches
  induction patches with
  | nil => rfl
  | cons patch patches ih =>
    rw [foldlM_cons, hpatches patch mem_cons_self]
    exact ih fun other hother => hpatches other (mem_cons_of_mem patch hother)

def patchedPage (normalize : Record → Record) (matchesQuery : Record → Bool) (edits : PendingEdits)
    (items : List Record) : OverlayState :=
  edits.patches.foldl (overlayPatch normalize matchesQuery) (edits.deletes.foldl overlayDelete ⟨pageById normalize items, 0, 0⟩)

variable {items : List Record}

section

variable (h : edits.Sound normalize (items.map normalize))
include h

theorem rowCount_pageById : rowCount (pageById normalize items) = items.length := by
  have hperm : (pageById normalize items).values.Perm (items.map normalize) :=
    values_perm h.distinctIds fun id record => get?_pageById h.ids h.distinctIds id record
  have hlength := hperm.length_eq
  rw [length_map] at hlength
  rw [← hlength]
  exact (length_map _).symm

theorem get?_patchedPage (id : String) (left : Record) :
    (patchedPage normalize matchesQuery edits items).byId.get? id = some left ↔
      ∃ row ∈ items.map normalize, idText row = id ∧ survivor normalize matchesQuery edits row = some left := by
  unfold patchedPage
  rw [(overlayPatches_spec edits.patches _).1, (overlayDeletes_spec edits.deletes _).1, Option.bind_eq_some_iff]
  dsimp only
  constructor
  · rintro ⟨row, hrow, hpatched⟩
    split at hrow
    · cases hrow
    rename_i hlive
    obtain ⟨hmem, rfl⟩ := (get?_pageById h.ids h.distinctIds id row).mp hrow
    refine ⟨row, hmem, rfl, ?_⟩
    unfold survivor
    rw [if_neg hlive]
    exact hpatched
  · rintro ⟨row, hmem, rfl, hsurvivor⟩
    unfold survivor at hsurvivor
    split at hsurvivor
    · cases hsurvivor
    rename_i hlive
    refine ⟨row, ?_, hsurvivor⟩
    rw [if_neg hlive]
    exact (get?_pageById h.ids h.distinctIds _ row).mpr ⟨hmem, rfl⟩

theorem count_patchedPage : rowCount (patchedPage normalize matchesQuery edits items).byId +
      (patchedPage normalize matchesQuery edits items).removedCount = items.length ∧
    (patchedPage normalize matchesQuery edits items).addedCount = 0 := by
  obtain ⟨-, hpatchCount, hpatchAdded⟩ := @overlayPatches_spec normalize matchesQuery edits.patches
    (edits.deletes.foldl overlayDelete ⟨pageById normalize items, 0, 0⟩)
  obtain ⟨-, hdeleteCount, hdeleteAdded⟩ := overlayDeletes_spec edits.deletes ⟨pageById normalize items, 0, 0⟩
  have hrows := rowCount_pageById h
  unfold patchedPage
  exact ⟨by dsimp only at hdeleteCount; omega, hpatchAdded.trans hdeleteAdded⟩

end

end Rows

section Pending

variable {matchesQuery : Record → Bool}

def lineageOn (page : Dict String Record) (record : Record) : Bool :=
  page.values.any fun row => pendingRecordRoot row = pendingRecordRoot record

theorem lineageOn_iff (page : Dict String Record) (record : Record) : lineageOn page record = true ↔
    ∃ id row, page.get? id = some row ∧ pendingRecordRoot row = pendingRecordRoot record := by
  unfold lineageOn
  rw [any_eq_true]
  constructor
  · rintro ⟨row, hrow, hroot⟩
    obtain ⟨id, hget⟩ := (mem_values_iff page row).mp hrow
    exact ⟨id, row, hget, of_decide_eq_true hroot⟩
  · rintro ⟨id, row, hget, hroot⟩
    exact ⟨row, (mem_values_iff page row).mpr ⟨id, hget⟩, decide_eq_true hroot⟩

/-- The row of an id after some of the pending records: the pending record of that id, where it matches and the
page is the one that shows it, or else the row that was there, unless one of them has replaced it. -/
def overlaidRow (matchesQuery : Record → Bool) (page : Dict String Record) (isFirstPage : Bool)
    (pending : List Record) (id : String) : Option Record :=
  ((pending.find? fun record => idText record = id).elim
    ((page.get? id).filter fun row => pendingRecordRoot row ∉ pending.map pendingRecordRoot) fun record =>
      if matchesQuery record ∧ (lineageOn page record ∨ isFirstPage) then
        some (((page.get? id).getD empty).spread record)
      else none)

/-- What the pending records and the rows of a page are to each other. -/
structure LineagePage (page : Dict String Record) (originalIds deletes : List String) (pending : List Record) : Prop where
  ids : ∀ id row, page.get? id = some row → idText row = id
  roots : ∀ id id' row row', page.get? id = some row → page.get? id' = some row' →
    pendingRecordRoot row = pendingRecordRoot row' → id = id'
  stable : ∀ record ∈ pending, ∀ row, page.get? (idText record) = some row → pendingRecordRoot row = pendingRecordRoot record
  original : ∀ record ∈ pending, idText record ∈ originalIds → ∃ row, page.get? (idText record) = some row
  pendingIds : (pending.map idText).Nodup
  pendingRoots : (pending.map pendingRecordRoot).Nodup
  live : ∀ record ∈ pending, idText record ≠ "" ∧ idText record ∉ deletes

theorem LineagePage.sublist {page : Dict String Record} {originalIds deletes : List String}
    {pending shorter : List Record} (h : LineagePage page originalIds deletes pending)
    (hshorter : shorter.Sublist pending) : LineagePage page originalIds deletes shorter where
  ids := h.ids
  roots := h.roots
  stable record hrecord := h.stable record (hshorter.subset hrecord)
  original record hrecord := h.original record (hshorter.subset hrecord)
  pendingIds := (hshorter.map idText).nodup h.pendingIds
  pendingRoots := (hshorter.map pendingRecordRoot).nodup h.pendingRoots
  live record hrecord := h.live record (hshorter.subset hrecord)

/-- The state after some of the pending records. -/
structure Overlaid (matchesQuery : Record → Bool) (start : OverlayState) (isFirstPage : Bool) (pending : List Record)
    (state : OverlayState) : Prop where
  rows : ∀ id, state.byId.get? id = overlaidRow matchesQuery start.byId isFirstPage pending id
  count : rowCount state.byId + state.removedCount + start.addedCount =
    rowCount start.byId + start.removedCount + state.addedCount

theorem Overlaid.nil (start : OverlayState) (isFirstPage : Bool) : Overlaid matchesQuery start isFirstPage [] start where
  rows id := by
    unfold overlaidRow
    cases start.byId.get? id <;> rfl
  count := rfl

variable (byId : Dict String Record)

theorem mem_lineageIds_iff (root id : String) :
    id ∈ lineageIds byId root ↔ ∃ row, byId.get? id = some row ∧ pendingRecordRoot row = root := by
  unfold lineageIds
  rw [mem_map]
  constructor
  · rintro ⟨⟨other, row⟩, hentry, rfl⟩
    obtain ⟨hmem, hroot⟩ := mem_filter.mp hentry
    exact ⟨row, (byId.mem_entries_iff other row).mp hmem, of_decide_eq_true hroot⟩
  · rintro ⟨row, hget, hroot⟩
    exact ⟨(id, row), mem_filter.mpr ⟨(byId.mem_entries_iff id row).mpr hget, decide_eq_true hroot⟩, rfl⟩

theorem nodup_lineageIds (root : String) : (lineageIds byId root).Nodup :=
  (filter_sublist.map Prod.fst).nodup byId.nodupKeys

theorem get?_foldl_erase (ids : List String) (byId : Dict String Record) (id : String) :
    (ids.foldl erase byId).get? id = if id ∈ ids then none else byId.get? id := by
  induction ids generalizing byId with
  | nil => simp
  | cons other ids ih =>
    rw [foldl_cons, ih, Dict.get?_erase]
    by_cases hid : id = other <;> simp [hid]

theorem get?_eraseLineage (root keep id : String) :
    (((lineageIds byId root).filter fun candidateId => candidateId ≠ keep).foldl erase byId).get? id =
      if id = keep then byId.get? id else (byId.get? id).filter fun row => pendingRecordRoot row ≠ root := by
  rw [get?_foldl_erase]
  by_cases hkeep : id = keep
  · simp [hkeep]
  simp only [mem_filter, mem_lineageIds_iff, hkeep]
  cases hget : byId.get? id with
  | none => simp
  | some row => by_cases hroot : pendingRecordRoot row = root <;> simp [hroot, hkeep, Option.filter_some]

section Step

variable {start state : OverlayState} {isFirstPage : Bool} {originalIds deletes : List String} {pending : List Record}
  {record : Record}

theorem LineagePage.root_over (hpage : LineagePage start.byId originalIds deletes pending) (hrecord : record ∈ pending) :
    pendingRecordRoot (((start.byId.get? (idText record)).getD empty).spread record) = pendingRecordRoot record := by
  cases hget : start.byId.get? (idText record) with
  | none => exact pendingRecordRoot_spread_empty record
  | some row =>
    have hroot := hpage.stable record hrecord row hget
    rw [← hroot]
    exact pendingRecordRoot_spread (hpage.ids _ row hget) (hpage.live record hrecord).1 (Or.inr hroot.symm)

variable (hpage : LineagePage start.byId originalIds deletes (pending ++ [record]))

include hpage

theorem LineagePage.fresh : idText record ∉ pending.map idText ∧
    pendingRecordRoot record ∉ pending.map pendingRecordRoot := by
  have hids := hpage.pendingIds
  have hroots := hpage.pendingRoots
  rw [map_append, nodup_append] at hids hroots
  constructor
  · exact fun hmem => hids.2.2 _ hmem _ (mem_singleton_self _) rfl
  · exact fun hmem => hroots.2.2 _ hmem _ (mem_singleton_self _) rfl

theorem find?_fresh : (pending.find? fun other => idText other = idText record) = none := by
  rw [List.find?_eq_none]
  intro other hother hid
  exact hpage.fresh.1 (mem_map.mpr ⟨other, hother, of_decide_eq_true hid⟩)

theorem overlaidRow_append (id : String) : overlaidRow matchesQuery start.byId isFirstPage (pending ++ [record]) id =
    if id = idText record then
      (if matchesQuery record ∧ (lineageOn start.byId record ∨ isFirstPage) then
        some (((start.byId.get? id).getD empty).spread record)
      else none)
    else (overlaidRow matchesQuery start.byId isFirstPage pending id).filter fun row =>
      pendingRecordRoot row ≠ pendingRecordRoot record := by
  unfold overlaidRow
  rw [find?_append]
  split
  · rename_i hid
    subst hid
    rw [find?_fresh hpage]
    simp
  · rename_i hid
    have hlast : ([record].find? fun other => idText other = id) = none := by
      rw [List.find?_eq_none]
      simp [Ne.symm hid]
    rw [hlast, Option.or_none]
    cases hfind : pending.find? fun other => idText other = id with
    | none =>
      cases hget : start.byId.get? id with
      | none => simp
      | some row => simp [Option.filter_filter]
    | some other =>
      have hother : other ∈ pending := mem_of_find?_eq_some hfind
      have hotherId : idText other = id := by simpa using find?_some hfind
      have hroot := hpage.root_over (mem_append_left [record] hother)
      rw [hotherId] at hroot
      have hne : pendingRecordRoot other ≠ pendingRecordRoot record := fun heq =>
        hpage.fresh.2 (mem_map.mpr ⟨other, hother, heq⟩)
      dsimp only [Option.elim]
      split
      · rw [Option.filter_some, hroot, if_pos (decide_eq_true hne)]
      · rfl

theorem overlaidRow_fresh :
    overlaidRow matchesQuery start.byId isFirstPage pending (idText record) = start.byId.get? (idText record) := by
  unfold overlaidRow
  rw [find?_fresh hpage]
  dsimp only [Option.elim]
  cases hget : start.byId.get? (idText record) with
  | none => rfl
  | some row =>
    have hroot := hpage.stable record (mem_append_right pending (mem_singleton_self record)) row hget
    rw [Option.filter_some, hroot, if_pos (decide_eq_true hpage.fresh.2)]

theorem overlaidRow_lineage_iff (id : String) {row : Record} (hroot : pendingRecordRoot row = pendingRecordRoot record) :
    overlaidRow matchesQuery start.byId isFirstPage pending id = some row ↔ start.byId.get? id = some row := by
  have hrow : pendingRecordRoot row ∉ pending.map pendingRecordRoot := by
    rw [hroot]
    exact hpage.fresh.2
  unfold overlaidRow
  cases hfind : pending.find? fun other => idText other = id with
  | none =>
    dsimp only [Option.elim]
    rw [Option.filter_eq_some_iff]
    exact ⟨And.left, fun hget => ⟨hget, decide_eq_true hrow⟩⟩
  | some other =>
    have hother : other ∈ pending := mem_of_find?_eq_some hfind
    have hotherId : idText other = id := by simpa using find?_some hfind
    have hmem := mem_append_left [record] hother
    have hne : pendingRecordRoot row ≠ pendingRecordRoot other := fun heq =>
      hrow (mem_map.mpr ⟨other, hother, heq.symm⟩)
    dsimp only [Option.elim]
    constructor
    · intro hover
      split at hover
      · cases hover
        have hown := hpage.root_over hmem
        rw [hotherId] at hown
        exact absurd hown hne
      · cases hover
    · intro hget
      rw [← hotherId] at hget
      exact absurd (hpage.stable other hmem row hget) hne

section

variable (hstate : Overlaid matchesQuery start isFirstPage pending state)
include hstate

theorem lineageIds_cases :
    (lineageIds state.byId (pendingRecordRoot record) = [] ∧ state.byId.contains (idText record) = false ∧
        lineageOn start.byId record = false) ∨
      ∃ id, lineageIds state.byId (pendingRecordRoot record) = [id] ∧ state.byId.contains id = true ∧
        lineageOn start.byId record = true ∧ (id ≠ idText record → state.byId.contains (idText record) = false) := by
  have hmem : record ∈ pending ++ [record] := mem_append_right pending (mem_singleton_self record)
  have hids (id : String) : id ∈ lineageIds state.byId (pendingRecordRoot record) ↔
      ∃ row, start.byId.get? id = some row ∧ pendingRecordRoot row = pendingRecordRoot record := by
    rw [mem_lineageIds_iff]
    apply exists_congr
    intro row
    apply and_congr_left
    intro hroot
    rw [hstate.rows]
    exact overlaidRow_lineage_iff hpage id hroot
  have hown : state.byId.contains (idText record) = true →
      idText record ∈ lineageIds state.byId (pendingRecordRoot record) := by
    intro hcontains
    obtain ⟨row, hget⟩ := (contains_iff _ _).mp hcontains
    rw [hstate.rows, overlaidRow_fresh hpage] at hget
    exact (hids _).mpr ⟨row, hget, hpage.stable record hmem row hget⟩
  have hlineage : lineageOn start.byId record = true ↔
      ∃ id, id ∈ lineageIds state.byId (pendingRecordRoot record) := by
    rw [lineageOn_iff]
    exact exists_congr fun id => (hids id).symm
  cases hlist : lineageIds state.byId (pendingRecordRoot record) with
  | nil =>
    refine Or.inl ⟨rfl, ?_, ?_⟩
    · rw [← Bool.not_eq_true]
      intro hcontains
      have hin := hown hcontains
      rw [hlist] at hin
      exact not_mem_nil hin
    · rw [← Bool.not_eq_true, hlineage, hlist]
      simp
  | cons id rest =>
    have hone (other : String) (hother : other ∈ lineageIds state.byId (pendingRecordRoot record)) : other = id := by
      obtain ⟨row, hget, hroot⟩ := (hids id).mp (by rw [hlist]; exact mem_cons_self)
      obtain ⟨row', hget', hroot'⟩ := (hids other).mp hother
      exact hpage.roots _ _ _ _ hget' hget (hroot'.trans hroot.symm)
    have hnodup := nodup_lineageIds state.byId (pendingRecordRoot record)
    rw [hlist] at hnodup hone
    have hrest : rest = [] := by
      apply eq_nil_iff_forall_not_mem.mpr
      intro other hother
      have heq := hone other (mem_cons_of_mem id hother)
      rw [heq] at hother
      exact (nodup_cons.mp hnodup).1 hother
    refine Or.inr ⟨id, by rw [hrest], ?_, ?_, ?_⟩
    · obtain ⟨row, hget, -⟩ := (mem_lineageIds_iff state.byId (pendingRecordRoot record) id).mp
        (by rw [hlist]; exact mem_cons_self)
      exact (contains_iff _ _).mpr ⟨row, hget⟩
    · rw [hlineage, hlist]
      exact ⟨id, mem_cons_self⟩
    · intro hne
      rw [← Bool.not_eq_true]
      intro hcontains
      have hin := hown hcontains
      rw [hlist] at hin
      exact hne (hone _ hin).symm

theorem existedOnPage_eq : (state.byId.contains (idText record) || decide (idText record ∈ originalIds) ||
    !(lineageIds state.byId (pendingRecordRoot record)).isEmpty) = lineageOn start.byId record := by
  have hmem : record ∈ pending ++ [record] := mem_append_right pending (mem_singleton_self record)
  rcases lineageIds_cases hpage hstate with ⟨hnil, hcontains, hlineage⟩ | ⟨id, hone, -, hlineage, -⟩
  · have horiginal : idText record ∉ originalIds := by
      intro horiginal
      obtain ⟨row, hget⟩ := hpage.original record hmem horiginal
      have htrue := (lineageOn_iff start.byId record).mpr ⟨_, row, hget, hpage.stable record hmem row hget⟩
      rw [hlineage] at htrue
      cases htrue
    rw [hnil, hcontains, hlineage, decide_eq_false horiginal]
    rfl
  · rw [hone, hlineage]
    simp

theorem count_eraseLineage {byId : Dict String Record}
    (hbyId : byId = ((lineageIds state.byId (pendingRecordRoot record)).filter
      fun candidateId => candidateId ≠ idText record).foldl erase state.byId) :
    (lineageOn start.byId record = false ∧ byId.contains (idText record) = false ∧
        rowCount byId = rowCount state.byId) ∨
      (lineageOn start.byId record = true ∧
        (byId.contains (idText record) = true ∧ rowCount byId = rowCount state.byId ∨
          byId.contains (idText record) = false ∧ rowCount byId + 1 = rowCount state.byId)) := by
  rcases lineageIds_cases hpage hstate with ⟨hnil, hcontains, hlineage⟩ | ⟨id, hone, hcontains, hlineage, hother⟩
  · rw [hnil] at hbyId
    have hsame : byId = state.byId := hbyId
    rw [hsame]
    exact Or.inl ⟨hlineage, hcontains, rfl⟩
  · refine Or.inr ⟨hlineage, ?_⟩
    rw [hone] at hbyId
    by_cases hid : id = idText record
    · have hsame : byId = state.byId := by
        rw [hbyId, hid]
        simp
      rw [hsame]
      rw [hid] at hcontains
      exact Or.inl ⟨hcontains, rfl⟩
    · have herased : byId = state.byId.erase id := by
        rw [hbyId]
        simp [hid]
      rw [herased]
      refine Or.inr ⟨?_, rowCount_erase hcontains⟩
      rw [contains_eq_isSome, Dict.get?_erase_of_ne _ (Ne.symm hid), ← contains_eq_isSome]
      exact hother hid

/-- A pending record is laid over the rows, and the counts go with them. -/
theorem Overlaid.step : Overlaid matchesQuery start isFirstPage (pending ++ [record])
    (overlayUpsert matchesQuery deletes originalIds isFirstPage state record) := by
  have hlive := hpage.live record (mem_append_right pending (mem_singleton_self record))
  generalize hbyId : ((lineageIds state.byId (pendingRecordRoot record)).filter
      fun candidateId => candidateId ≠ idText record).foldl erase state.byId = byId
  have hget (id : String) : byId.get? id = if id = idText record then state.byId.get? id
      else (state.byId.get? id).filter fun row => pendingRecordRoot row ≠ pendingRecordRoot record := by
    rw [← hbyId]
    exact get?_eraseLineage _ _ _ id
  have hown : byId.get? (idText record) = start.byId.get? (idText record) := by
    rw [hget, if_pos rfl, hstate.rows, overlaidRow_fresh hpage]
  have hcounts := count_eraseLineage hpage hstate hbyId.symm
  have hcount := hstate.count
  unfold overlayUpsert
  rw [if_neg (not_or.mpr hlive)]
  dsimp only
  rw [existedOnPage_eq hpage hstate, hbyId]
  cases hmatches : matchesQuery record with
  | false =>
    constructor
    · intro id
      rw [if_pos Bool.not_false, overlaidRow_append hpage, hmatches, Dict.get?_erase, hget, hstate.rows]
      by_cases hid : id = idText record <;> simp [hid]
    · rw [if_pos Bool.not_false]
      dsimp only
      rcases hcounts with ⟨hlineage, hcontains, hrows⟩ | ⟨hlineage, ⟨hcontains, hrows⟩ | ⟨hcontains, hrows⟩⟩
      · rw [hlineage, rowCount_erase_of_not hcontains, hrows]
        exact hcount
      · have herase : rowCount (byId.erase (fieldText record "id")) + 1 = rowCount byId := rowCount_erase hcontains
        rw [hlineage, if_pos rfl]
        omega
      · rw [hlineage, rowCount_erase_of_not hcontains, if_pos rfl]
        omega
  | true =>
    rw [if_neg (by decide)]
    by_cases hshown : (lineageOn start.byId record || isFirstPage) = true
    · rw [if_pos hshown]
      constructor
      · intro id
        dsimp only
        rw [overlaidRow_append hpage, Dict.get?_set, hown, hget, hstate.rows]
        rw [Bool.or_eq_true] at hshown
        by_cases hid : id = idText record
        · rw [if_pos hid, if_pos hid, if_pos ⟨hmatches, hshown⟩, hid]
        · rw [if_neg hid, if_neg hid, if_neg hid]
      · dsimp only
        rcases hcounts with ⟨hlineage, hcontains, hrows⟩ | ⟨hlineage, ⟨hcontains, hrows⟩ | ⟨hcontains, hrows⟩⟩
        · rw [hlineage, rowCount_set_of_not _ hcontains, hrows, if_neg Bool.false_ne_true]
          omega
        · rw [hlineage, rowCount_set_of_contains _ hcontains, hrows, if_pos rfl]
          exact hcount
        · rw [hlineage, rowCount_set_of_not _ hcontains, hrows, if_pos rfl]
          exact hcount
    · rw [if_neg hshown]
      rw [Bool.or_eq_true, not_or, Bool.not_eq_true] at hshown
      obtain ⟨hlineage, hlater⟩ := hshown
      have hcontains : byId.contains (idText record) = false ∧ rowCount byId = rowCount state.byId := by
        rcases hcounts with hcase | ⟨htrue, -⟩
        · exact hcase.2
        · rw [hlineage] at htrue
          cases htrue
      constructor
      · intro id
        dsimp only
        rw [overlaidRow_append hpage, hlineage, hget, hstate.rows]
        by_cases hid : id = idText record
        · rw [if_pos hid, if_pos hid, if_neg fun h => h.2.elim Bool.false_ne_true hlater, hid]
          have hnone := hcontains.1
          rw [contains_eq_isSome, hget, if_pos rfl, hstate.rows] at hnone
          exact Option.not_isSome_iff_eq_none.mp (by rw [hnone]; exact Bool.false_ne_true)
        · rw [if_neg hid, if_neg hid]
      · dsimp only
        rw [hcontains.2]
        exact hcount

end

end Step

theorem overlaid_foldl {start : OverlayState} {isFirstPage : Bool} {originalIds deletes : List String}
    (pending : List Record) (hpage : LineagePage start.byId originalIds deletes pending) :
    Overlaid matchesQuery start isFirstPage pending
      (pending.foldl (overlayUpsert matchesQuery deletes originalIds isFirstPage) start) := by
  induction pending using List.reverseRecOn with
  | nil => exact Overlaid.nil start isFirstPage
  | append_singleton pending record ih =>
    rw [foldl_append]
    exact (ih (hpage.sublist (sublist_append_left pending [record]))).step hpage

end Pending

end Bidding.Tables
