import Mathlib.Data.List.Pairwise
import Bidding.Sync.Text

/-!
# Participants of opening bids

A contractor takes part in a package, or in a lot of it, with one bid. A batch of bids is validated as a whole; it is then
written bid by bid, and every bid enters its participants into a registry under a unique key.
-/

namespace Bidding.Packages

open Foundations List
open Option hiding mem_map

/-- A row of `thong_tin_mo_thau` with the contractors of its member rows. -/
structure BidRow where
  goiThauId : String
  nhaThauId : String
  maPhanLo : String
  loaiNhaThau : String
  archived : Bool
  members : List String
  deriving DecidableEq

/-- A bid of a batch: the fields it carries, and the contractors of its member list. -/
structure OpeningItem where
  id : String
  goiThauId : Option String
  nhaThauId : Option String
  maPhanLo : Option String
  loaiNhaThau : Option String
  thanhVienLienDanh : Option (List String)
  deriving DecidableEq

abbrev ParticipantKey : Type := String × String × String

/-- The bids by id, and `nha_thau_tham_du_mo_thau`: the bid of every key. -/
structure OpeningStore where
  bids : Dict String BidRow
  registry : Dict ParticipantKey String

/-- `COALESCE(NULLIF(id_goc, ''), id)` of a stored contractor. -/
def contractorRoot (nhaThau : Dict String String) (id : String) : Option String :=
  (nhaThau.get? id).map fun idGoc => if idGoc = "" then id else idGoc

/-- `str(value).strip().casefold() == "liên danh"`. -/
def isJointVenture (t : PyText) (loaiNhaThau : String) : Bool := t.casefold (pyStrip loaiNhaThau) = "liên danh"

/-! ## The batch is validated -/

def normalizeLotScope (t : PyText) (value : String) : String :=
  let normalized := normalizeLotCode t (.str value)
  if normalized = "" then "__PACKAGE__" else normalized

/-- A bid as it will be: the fields of the item over those of the stored bid. -/
structure OpeningRecord where
  id : String
  goiThauId : Option String
  nhaThauId : Option String
  maPhanLo : String
  loaiNhaThau : String
  members : List String
  deriving DecidableEq

def storedRecord (id : String) (row : BidRow) : OpeningRecord :=
  ⟨id, some row.goiThauId, some row.nhaThauId, row.maPhanLo, row.loaiNhaThau, row.members⟩

/-- `{**base, **incoming}`, with the members of the base where the item has no list. -/
def mergedRecord (base : Option BidRow) (item : OpeningItem) : OpeningRecord where
  id := item.id
  goiThauId := item.goiThauId.or (base.map BidRow.goiThauId)
  nhaThauId := item.nhaThauId.or (base.map BidRow.nhaThauId)
  maPhanLo := (item.maPhanLo.or (base.map BidRow.maPhanLo)).getD ""
  loaiNhaThau := (item.loaiNhaThau.or (base.map BidRow.loaiNhaThau)).getD ""
  members := (item.thanhVienLienDanh.or (base.map BidRow.members)).getD []

def incomingParticipantIds (t : PyText) (record : OpeningRecord) : List String :=
  if isJointVenture t record.loaiNhaThau then record.members.filterMap fun id => idOf (.str id)
  else (record.nhaThauId.bind fun id => idOf (.str id)).toList

def activeBid (store : OpeningStore) (id : String) : Option BidRow :=
  (store.bids.get? id).filter fun row => !row.archived

/-- The active bids that are not in the batch, and the batch. -/
def openingRecords (store : OpeningStore) (items : List OpeningItem) : List OpeningRecord :=
  ((store.bids.entries.filter fun bid => !bid.2.archived && bid.1 ∉ items.map OpeningItem.id).map
      fun bid => storedRecord bid.1 bid.2) ++ items.map fun item => mergedRecord (activeBid store item.id) item

abbrev OccupiedKey : Type := Option String × String × String

structure Occurrence where
  bidId : String
  key : OccupiedKey
  maPhanLo : String
  deriving DecidableEq

def occurrences (t : PyText) (nhaThau : Dict String String) (record : OpeningRecord) : List Occurrence :=
  (incomingParticipantIds t record).map fun contractorId =>
    ⟨record.id, (record.goiThauId.bind fun id => idOf (.str id), normalizeLotScope t record.maPhanLo,
      (contractorRoot nhaThau contractorId).getD contractorId), record.maPhanLo⟩

structure OpeningError where
  id : String
  message : String
  conflictingId : String
  deriving DecidableEq

/-- `occupied`, `errors` and `reported`. -/
structure OccupationLoop where
  occupied : Dict OccupiedKey String
  errors : List OpeningError
  reported : List (String × OccupiedKey)

/-- The text that names the scope. -/
def scopeLabel (o : Occurrence) : String :=
  if o.key.2.1 = "__PACKAGE__" then "toàn gói thầu" else "phần lô '" ++ o.maPhanLo ++ "'"

def occupy (incomingIds : List String) (state : OccupationLoop) (o : Occurrence) : OccupationLoop :=
  match state.occupied.get? o.key with
  | none => { state with occupied := state.occupied.set o.key o.bidId }
  | some previous =>
    if o.bidId ∉ incomingIds ∧ previous ∉ incomingIds then state
    else if (o.bidId, o.key) ∈ state.reported then state
    else
      { state with
        errors := state.errors ++
          [⟨o.bidId, "Nhà thầu đã xuất hiện trong biên bản mở thầu của " ++ scopeLabel o ++ ".", previous⟩]
        reported := (o.bidId, o.key) :: state.reported }

def validateOpeningParticipantUniqueness (t : PyText) (nhaThau : Dict String String) (store : OpeningStore)
    (items : List OpeningItem) : List OpeningError :=
  if items = [] then []
  else
    (((openingRecords store items).flatMap (occurrences t nhaThau)).foldl
      (occupy (items.map OpeningItem.id)) ⟨Dict.empty, [], []⟩).errors

/-- The row of a bid after its item; `none` is a new bid without its package or its contractor. -/
def writtenBid (stored : Option BidRow) (item : OpeningItem) : Option BidRow :=
  ((item.goiThauId.bind fun id => idOf (.str id)).or (stored.map BidRow.goiThauId)).bind fun goiThauId =>
    ((item.nhaThauId.bind fun id => idOf (.str id)).or (stored.map BidRow.nhaThauId)).map fun nhaThauId =>
      { goiThauId, nhaThauId
        maPhanLo := ((item.maPhanLo.map pyStrip).or (stored.map BidRow.maPhanLo)).getD ""
        loaiNhaThau := ((item.loaiNhaThau.map pyStrip).or (stored.map BidRow.loaiNhaThau)).getD ""
        archived := (stored.map BidRow.archived).getD false
        members := ((item.thanhVienLienDanh.map fun members => members.filterMap fun id => idOf (.str id)).or
          (stored.map BidRow.members)).getD [] }

/-- `" ".join(str(value or "").strip().casefold().split()) or "__PACKAGE__"`. -/
def registryLotScope (t : PyText) (maPhanLo : String) : String :=
  let scope := pyStrip (collapseSpaces (t.casefold (pyStrip maPhanLo)))
  if scope = "" then "__PACKAGE__" else scope

/-- The contractors a bid enters. -/
def participantIds (t : PyText) (row : BidRow) (item : OpeningItem) : List String :=
  let memberValues :=
    if isJointVenture t row.loaiNhaThau ∧ item.thanhVienLienDanh = none then row.members
    else item.thanhVienLienDanh.getD []
  ((if isJointVenture t row.loaiNhaThau then memberValues else [row.nhaThauId]).filterMap fun id =>
    idOf (.str id)).eraseDups

/-- An entry of a bid that is not active is removed. -/
def releaseStale (bids : Dict String BidRow) (registry : Dict ParticipantKey String) (key : ParticipantKey) :
    Dict ParticipantKey String :=
  registry.filterEntries fun other owner =>
    !(other = key && !((bids.get? owner).any fun row => !row.archived))

/-- `INSERT INTO nha_thau_tham_du_mo_thau`; `none` is the violated key. -/
def enterParticipant (id : String) (registry : Dict ParticipantKey String) (key : ParticipantKey) :
    Option (Dict ParticipantKey String) :=
  if registry.contains key then none else some (registry.set key id)

/-- The keys a bid enters. -/
def participantKeys (t : PyText) (nhaThau : Dict String String) (row : BidRow) (participants : List String) :
    List ParticipantKey :=
  (participants.filterMap (contractorRoot nhaThau)).map fun root => (row.goiThauId, registryLotScope t row.maPhanLo, root)

/-- `_save_opening_participant_registry(…)`; `none` is an exception. -/
def saveOpeningParticipantRegistry (t : PyText) (nhaThau : Dict String String) (store : OpeningStore)
    (item : OpeningItem) : Option OpeningStore :=
  let released := store.registry.filterEntries fun _ owner => owner ≠ item.id
  match store.bids.get? item.id with
  | none => some { store with registry := released }
  | some row =>
    let keys := participantKeys t nhaThau row (participantIds t row item)
    (keys.foldlM (enterParticipant item.id) (keys.foldl (releaseStale store.bids) released)).map fun registry =>
      { store with registry }

def writeOpening (t : PyText) (nhaThau : Dict String String) (store : OpeningStore) (item : OpeningItem) :
    Option OpeningStore :=
  (writtenBid (store.bids.get? item.id) item).bind fun row =>
    saveOpeningParticipantRegistry t nhaThau { store with bids := store.bids.set item.id row } item

def writeOpenings (t : PyText) (nhaThau : Dict String String) (store : OpeningStore)
    (items : List OpeningItem) : Option OpeningStore :=
  items.foldlM (writeOpening t nhaThau) store

/-! ## What the validator has accepted -/

variable {t : PyText} {nhaThau : Dict String String} {store : OpeningStore} {items : List OpeningItem}

/-- The participants that were seen while there are no errors. -/
structure OccupationLoop.Clear (incomingIds : List String) (seen : List Occurrence) (state : OccupationLoop) : Prop where
  reported : state.reported = []
  free : ∀ key, state.occupied.get? key = none → ∀ o ∈ seen, o.key ≠ key
  owned : ∀ o ∈ seen, ∃ owner, state.occupied.get? o.key = some owner ∧
    (owner = o.bidId ∨ (o.bidId ∉ incomingIds ∧ owner ∉ incomingIds))
  apart : seen.Pairwise fun o o' => o.key = o'.key → o.bidId ∉ incomingIds ∧ o'.bidId ∉ incomingIds

variable {incomingIds : List String} {state : OccupationLoop} {o : Occurrence} {seen : List Occurrence} {key : ParticipantKey}

theorem errors_occupy (h : (occupy incomingIds state o).errors = []) : state.errors = [] := by
  unfold occupy at h
  split at h
  · exact h
  split at h
  · exact h
  · split at h
    · exact h
    · exact (append_eq_nil_iff.mp h).1

theorem OccupationLoop.Clear.occupy (hclear : state.Clear incomingIds seen)
    (h : (Packages.occupy incomingIds state o).errors = []) :
    (Packages.occupy incomingIds state o).Clear incomingIds (seen ++ [o]) := by
  unfold Packages.occupy at h ⊢
  cases hprevious : state.occupied.get? o.key with
  | none =>
    have hnew := hclear.free o.key hprevious
    dsimp only
    refine ⟨hclear.reported, ?_, ?_, ?_⟩
    · intro key hkey o' ho' heq
      rcases mem_append.mp ho' with ho' | ho'
      · have hne : key ≠ o.key := fun hsame => hnew o' ho' (heq.trans hsame)
        rw [Dict.get?_set_of_ne _ _ hne] at hkey
        exact hclear.free key hkey o' ho' heq
      · rw [mem_singleton.mp ho'] at heq
        rw [← heq, Dict.get?_set_self] at hkey
        cases hkey
    · intro o' ho'
      rcases mem_append.mp ho' with ho' | ho'
      · rw [Dict.get?_set_of_ne _ _ (hnew o' ho')]
        exact hclear.owned o' ho'
      · rw [mem_singleton.mp ho', Dict.get?_set_self]
        exact ⟨o.bidId, rfl, .inl rfl⟩
    · refine pairwise_append.mpr ⟨hclear.apart, pairwise_singleton _ _, fun o' ho' other hother => ?_⟩
      rw [mem_singleton.mp hother]
      exact fun heq => absurd heq (hnew o' ho')
  | some previous =>
    rw [hprevious] at h
    dsimp only at h ⊢
    rw [hclear.reported] at h ⊢
    by_cases hstored : o.bidId ∉ incomingIds ∧ previous ∉ incomingIds
    · rw [if_pos hstored]
      refine ⟨hclear.reported, ?_, ?_, ?_⟩
      · intro key hkey o' ho' heq
        rcases mem_append.mp ho' with ho' | ho'
        · exact hclear.free key hkey o' ho' heq
        · rw [mem_singleton.mp ho'] at heq
          rw [← heq, hprevious] at hkey
          cases hkey
      · intro o' ho'
        rcases mem_append.mp ho' with ho' | ho'
        · exact hclear.owned o' ho'
        · rw [mem_singleton.mp ho']
          exact ⟨previous, hprevious, .inr hstored⟩
      · refine pairwise_append.mpr ⟨hclear.apart, pairwise_singleton _ _, fun o' ho' other hother => ?_⟩
        rw [mem_singleton.mp hother]
        intro heq
        obtain ⟨owner, howner, hcases⟩ := hclear.owned o' ho'
        rw [heq, hprevious] at howner
        cases howner
        rcases hcases with hsame | hboth
        · exact ⟨hsame ▸ hstored.2, hstored.1⟩
        · exact ⟨hboth.1, hstored.1⟩
    · rw [if_neg hstored, if_neg not_mem_nil] at h
      exact absurd h (by simp)

theorem clear_of_foldl : (seen.foldl (occupy incomingIds) ⟨Dict.empty, [], []⟩).errors = [] →
    (seen.foldl (occupy incomingIds) ⟨Dict.empty, [], []⟩).Clear incomingIds seen := by
  induction seen using List.reverseRecOn with
  | nil =>
    intro _
    exact ⟨rfl, fun _ _ o ho => absurd ho not_mem_nil, fun o ho => absurd ho not_mem_nil, List.Pairwise.nil⟩
  | append_singleton seen o ih =>
    intro h
    rw [foldl_append] at h ⊢
    exact (ih (errors_occupy h)).occupy h

theorem apart_of_accepted (h : validateOpeningParticipantUniqueness t nhaThau store items = []) (hne : items ≠ []) :
    ((openingRecords store items).flatMap (occurrences t nhaThau)).Pairwise fun o o' =>
      o.key = o'.key → o.bidId ∉ items.map OpeningItem.id ∧ o'.bidId ∉ items.map OpeningItem.id := by
  unfold validateOpeningParticipantUniqueness at h
  rw [if_neg hne] at h
  exact (clear_of_foldl h).apart

/-! ## Bids and their participants -/

def BidRow.participants (t : PyText) (row : BidRow) : List String :=
  (if isJointVenture t row.loaiNhaThau then row.members else [row.nhaThauId]).filterMap fun id => idOf (.str id)

def BidRow.keys (t : PyText) (nhaThau : Dict String String) (row : BidRow) : List ParticipantKey :=
  participantKeys t nhaThau row (row.participants t)

theorem mem_keys {row : BidRow} : key ∈ row.keys t nhaThau ↔ ∃ participant ∈ row.participants t, ∃ root,
    contractorRoot nhaThau participant = some root ∧
      (row.goiThauId, registryLotScope t row.maPhanLo, root) = key := by
  unfold BidRow.keys participantKeys
  simp only [mem_map, mem_filterMap]
  constructor
  · rintro ⟨root, ⟨participant, hmem, hroot⟩, rfl⟩
    exact ⟨participant, hmem, root, hroot, rfl⟩
  · rintro ⟨participant, hmem, root, hroot, rfl⟩
    exact ⟨root, ⟨participant, hmem, hroot⟩, rfl⟩

/-- The registry is that of the active bids: every participant is a stored contractor, and the entries of
a bid are its keys. -/
structure Registered (t : PyText) (nhaThau : Dict String String) (store : OpeningStore) : Prop where
  contractor : ∀ id row, activeBid store id = some row → ∀ participant ∈ row.participants t,
    (contractorRoot nhaThau participant).isSome
  entry : ∀ id row, activeBid store id = some row → ∀ key, store.registry.get? key = some id ↔ key ∈ row.keys t nhaThau

variable {id : String}

theorem activeBid_eq_some {row : BidRow} :
    activeBid store id = some row ↔ store.bids.get? id = some row ∧ row.archived = false := by
  unfold activeBid
  rw [filter_eq_some_iff]
  simp

theorem idOf_of_idOf {id' : String} (h : idOf (.str id) = some id') : idOf (.str id') = some id' :=
  isStoredId_of_idOf h

theorem filterMap_idOf_filterMap (ids : List String) :
    ((ids.filterMap fun id => idOf (.str id)).filterMap fun id => idOf (.str id)) = ids.filterMap fun id => idOf (.str id) := by
  rw [filterMap_filterMap]
  apply filterMap_congr
  intro id _
  cases hid : idOf (.str id) with
  | none => rfl
  | some id' => exact idOf_of_idOf hid

theorem isJointVenture_pyStrip (text : String) : isJointVenture t (pyStrip text) = isJointVenture t text := by
  unfold isJointVenture
  rw [pyStrip_pyStrip]

theorem registryLotScope_pyStrip (text : String) : registryLotScope t (pyStrip text) = registryLotScope t text := by
  unfold registryLotScope
  rw [pyStrip_pyStrip]

/-- An item the sync service writes: its ids are clean. -/
structure OpeningItem.Clean (item : OpeningItem) : Prop where
  goiThauId : ∀ id, item.goiThauId = some id → IsStoredId id
  nhaThauId : ∀ id, item.nhaThauId = some id → IsStoredId id

theorem bind_idOf_eq {value : Option String} (h : ∀ id, value = some id → IsStoredId id) :
    (value.bind fun id => idOf (.str id)) = value := by
  cases value with
  | none => rfl
  | some id => exact h id rfl

/-- The row of a bid reads as its record does. -/
structure ReadsAs (t : PyText) (row : BidRow) (record : OpeningRecord) : Prop where
  goiThauId : (record.goiThauId.bind fun id => idOf (.str id)) = some row.goiThauId
  maPhanLo : registryLotScope t record.maPhanLo = registryLotScope t row.maPhanLo
  participants : incomingParticipantIds t record = row.participants t

/-- What the store holds to: clean ids of packages and contractors. -/
structure CleanBids (store : OpeningStore) : Prop where
  goiThauId : ∀ id row, store.bids.get? id = some row → IsStoredId row.goiThauId
  nhaThauId : ∀ id row, store.bids.get? id = some row → IsStoredId row.nhaThauId

theorem toList_bind_idOf (h : IsStoredId id) : ([id].filterMap fun id => idOf (.str id)) = [id] := by
  have hid : idOf (.str id) = some id := h
  simp [hid]

theorem storedRecord_readsAs (hclean : CleanBids store) {row : BidRow}
    (h : store.bids.get? id = some row) : ReadsAs t row (storedRecord id row) where
  goiThauId := hclean.goiThauId id row h
  maPhanLo := rfl
  participants := by
    unfold incomingParticipantIds storedRecord BidRow.participants
    dsimp only
    split
    · rfl
    · have hid : idOf (.str row.nhaThauId) = some row.nhaThauId := hclean.nhaThauId id row h
      rw [bind_some, hid, toList_bind_idOf (hclean.nhaThauId id row h)]
      rfl

variable {item : OpeningItem} {stored : Option BidRow} {keys : List ParticipantKey} {bids : Dict String BidRow}

theorem writtenBid_readsAs (hitem : item.Clean) (hgoiThauId : ∀ row, stored = some row → IsStoredId row.goiThauId)
    (hnhaThauId : ∀ row, stored = some row → IsStoredId row.nhaThauId) {row : BidRow}
    (h : writtenBid stored item = some row) : ReadsAs t row (mergedRecord stored item) := by
  unfold writtenBid at h
  rw [bind_idOf_eq hitem.goiThauId, bind_idOf_eq hitem.nhaThauId] at h
  obtain ⟨goiThauId, hpackage, h⟩ := bind_eq_some_iff.mp h
  obtain ⟨nhaThauId, hcontractor, rfl⟩ := map_eq_some_iff.mp h
  have hpackageId : IsStoredId goiThauId := by
    rcases or_eq_some_iff.mp hpackage with hown | ⟨_, hold⟩
    · exact hitem.goiThauId goiThauId hown
    · obtain ⟨old, hstored, rfl⟩ := map_eq_some_iff.mp hold
      exact hgoiThauId old hstored
  have hcontractorId : IsStoredId nhaThauId := by
    rcases or_eq_some_iff.mp hcontractor with hown | ⟨_, hold⟩
    · exact hitem.nhaThauId nhaThauId hown
    · obtain ⟨old, hstored, rfl⟩ := map_eq_some_iff.mp hold
      exact hnhaThauId old hstored
  have htype : isJointVenture t (((item.loaiNhaThau.map pyStrip).or (stored.map BidRow.loaiNhaThau)).getD "") =
        isJointVenture t ((item.loaiNhaThau.or (stored.map BidRow.loaiNhaThau)).getD "") := by
    cases item.loaiNhaThau with
    | none => rfl
    | some text => exact isJointVenture_pyStrip text
  have hmembers : (((item.thanhVienLienDanh.map fun members => members.filterMap fun id => idOf (.str id)).or
      (stored.map BidRow.members)).getD []).filterMap (fun id => idOf (.str id)) =
        ((item.thanhVienLienDanh.or (stored.map BidRow.members)).getD []).filterMap fun id => idOf (.str id) := by
    cases item.thanhVienLienDanh with
    | none => rfl
    | some members => exact filterMap_idOf_filterMap members
  constructor
  · show ((item.goiThauId.or (stored.map BidRow.goiThauId)).bind fun id => idOf (.str id)) = some goiThauId
    rw [hpackage]
    exact hpackageId
  · show registryLotScope t ((item.maPhanLo.or (stored.map BidRow.maPhanLo)).getD "") = _
    cases item.maPhanLo with
    | none => rfl
    | some text => exact (registryLotScope_pyStrip text).symm
  · unfold incomingParticipantIds mergedRecord BidRow.participants
    dsimp only
    rw [htype, hcontractor]
    split
    · exact hmembers.symm
    · have hid : idOf (.str nhaThauId) = some nhaThauId := hcontractorId
      rw [bind_some, hid, toList_bind_idOf hcontractorId]
      rfl

theorem participantIds_eq {row : BidRow}
    (h : writtenBid stored item = some row) : participantIds t row item = (row.participants t).eraseDups := by
  have hmembers : row.members = ((item.thanhVienLienDanh.map fun members => members.filterMap fun id => idOf (.str id)).or
        (stored.map BidRow.members)).getD [] := by
    unfold writtenBid at h
    obtain ⟨goiThauId, _, h⟩ := bind_eq_some_iff.mp h
    obtain ⟨nhaThauId, _, rfl⟩ := map_eq_some_iff.mp h
    rfl
  unfold participantIds BidRow.participants
  dsimp only
  congr 1
  split
  · cases hlist : item.thanhVienLienDanh with
    | none => simp [*]
    | some members =>
      rw [hlist] at hmembers
      rw [if_neg (by simp), hmembers]
      exact (filterMap_idOf_filterMap members).symm
  · rfl

/-! ## One bid is written -/

theorem get?_releaseStale (bids : Dict String BidRow) (registry : Dict ParticipantKey String)
    (key other : ParticipantKey) : (releaseStale bids registry key).get? other = (registry.get? other).filter fun owner =>
        !(other = key && !((bids.get? owner).any fun row => !row.archived)) :=
  Dict.get?_filterEntries registry _ other

theorem get?_foldl_releaseStale (bids : Dict String BidRow) (keys : List ParticipantKey)
    (registry : Dict ParticipantKey String) (other : ParticipantKey) : (keys.foldl (releaseStale bids) registry).get? other =
      if other ∈ keys then (registry.get? other).filter fun owner => (bids.get? owner).any fun row => !row.archived
      else registry.get? other := by
  induction keys generalizing registry with
  | nil => simp
  | cons key keys ih =>
    rw [foldl_cons, ih, get?_releaseStale]
    by_cases hkey : other = key
    · subst hkey
      cases registry.get? other with
      | none => simp
      | some owner => cases hactive : (bids.get? owner).any fun row => !row.archived <;> simp [hactive, Option.filter]
    · cases registry.get? other with
      | none => simp [hkey]
      | some owner => simp [hkey, Option.filter]

theorem enterParticipants_spec
    {registry registry' : Dict ParticipantKey String}
    (h : keys.foldlM (enterParticipant id) registry = some registry') :
    (∀ key ∈ keys, registry.get? key = none) ∧
      ∀ key, registry'.get? key = if key ∈ keys then some id else registry.get? key := by
  induction keys generalizing registry with
  | nil =>
    obtain rfl : registry = registry' := some.inj h
    simp
  | cons key keys ih =>
    rw [foldlM_cons] at h
    obtain ⟨middle, hmiddle, hrest⟩ := bind_eq_some_iff.mp h
    unfold enterParticipant at hmiddle
    split at hmiddle
    · cases hmiddle
    rename_i hfree
    cases hmiddle
    have hnone : registry.get? key = none := by
      cases hget : registry.get? key with
      | none => rfl
      | some owner => exact absurd ((Dict.contains_iff _ _).mpr ⟨owner, hget⟩) hfree
    obtain ⟨hfree', hall⟩ := ih hrest
    constructor
    · intro other hother
      rcases mem_cons.mp hother with rfl | hother
      · exact hnone
      have hother' := hfree' other hother
      rw [Dict.get?_set] at hother'
      split at hother'
      · cases hother'
      · exact hother'
    · intro other
      rw [hall, Dict.get?_set]
      by_cases hkey : other = key
      · simp [hkey]
      · simp [hkey]

theorem enterParticipants_isSome (hnodup : keys.Nodup)
    {registry : Dict ParticipantKey String} (hfree : ∀ key ∈ keys, registry.get? key = none) :
    ∃ registry', keys.foldlM (enterParticipant id) registry = some registry' := by
  induction keys generalizing registry with
  | nil => exact ⟨registry, rfl⟩
  | cons key keys ih =>
    rw [nodup_cons] at hnodup
    have hcontains : ¬registry.contains key = true := by
      rw [Dict.contains_iff, hfree key mem_cons_self]
      simp
    have hrest : ∀ other ∈ keys, (registry.set key id).get? other = none := by
      intro other hother
      have hne : other ≠ key := by
        rintro rfl
        exact hnodup.1 hother
      rw [Dict.get?_set_of_ne _ _ hne]
      exact hfree other (mem_cons_of_mem key hother)
    obtain ⟨registry', hregistry'⟩ := ih hnodup.2 hrest
    refine ⟨registry', ?_⟩
    rw [foldlM_cons, enterParticipant, if_neg hcontains]
    exact hregistry'

theorem writeOpening_eq (store : OpeningStore) (item : OpeningItem) {row : BidRow}
    (h : writtenBid (store.bids.get? item.id) item = some row) : writeOpening t nhaThau store item =
      ((participantKeys t nhaThau row (row.participants t).eraseDups).foldlM (enterParticipant item.id)
        ((participantKeys t nhaThau row (row.participants t).eraseDups).foldl (releaseStale (store.bids.set item.id row))
          (store.registry.filterEntries fun _ owner => owner ≠ item.id))).map fun registry =>
        ⟨store.bids.set item.id row, registry⟩ := by
  unfold writeOpening saveOpeningParticipantRegistry
  rw [h, bind_some]
  dsimp only
  rw [Dict.get?_set_self]
  dsimp only
  rw [participantIds_eq h]

theorem activeBid_set (store : OpeningStore) (id : String) {row : BidRow} (hrow : row.archived = false)
    (registry : Dict ParticipantKey String) (other : String) : activeBid ⟨store.bids.set id row, registry⟩ other =
      if other = id then some row else activeBid store other := by
  unfold activeBid
  rw [Dict.get?_set]
  split
  · simp [Option.filter, hrow]
  · rfl

theorem any_active_iff {registry : Dict ParticipantKey String} {owner : String} :
    ((bids.get? owner).any fun row => !row.archived) = true ↔ ∃ row, activeBid ⟨bids, registry⟩ owner = some row := by
  unfold activeBid
  cases bids.get? owner with
  | none => simp
  | some row => cases hrow : row.archived <;> simp [Option.filter, hrow]

theorem eraseDups_sublist {α : Type} [BEq α] (l : List α) : l.eraseDups.Sublist l := by
  induction hlength : l.length using Nat.strong_induction_on generalizing l with
  | _ n ih =>
    cases l with
    | nil => exact List.Sublist.refl []
    | cons a l =>
      rw [length_cons] at hlength
      rw [eraseDups_cons]
      have hle : (l.filter fun b => !b == a).length ≤ l.length := length_filter_le _ l
      have hrest := ih _ (by omega) (l.filter fun b => !b == a) rfl
      exact (hrest.trans filter_sublist).cons_cons a

variable {row : BidRow}

theorem mem_participantKeys_eraseDups :
    key ∈ participantKeys t nhaThau row (row.participants t).eraseDups ↔ key ∈ row.keys t nhaThau := by
  unfold BidRow.keys participantKeys
  simp only [mem_map, mem_filterMap, mem_eraseDups]

theorem nodup_participantKeys_eraseDups (h : (row.keys t nhaThau).Nodup) :
    (participantKeys t nhaThau row (row.participants t).eraseDups).Nodup := by
  refine List.Nodup.sublist ?_ h
  exact ((eraseDups_sublist (row.participants t)).filterMap _).map _

theorem get?_released {registry : Dict ParticipantKey String} :
    (keys.foldl (releaseStale bids) (registry.filterEntries fun _ owner => owner ≠ id)).get? key =
      (registry.get? key).filter fun owner =>
        owner ≠ id && !(key ∈ keys && !((bids.get? owner).any fun row => !row.archived)) := by
  rw [get?_foldl_releaseStale, Dict.get?_filterEntries]
  cases registry.get? key with
  | none => simp
  | some owner =>
    by_cases hkey : key ∈ keys
    · by_cases hid : owner = id
      · simp [hkey, hid, Option.filter]
      · simp [hkey, hid, Option.filter]
    · by_cases hid : owner = id
      · simp [hkey, hid, Option.filter]
      · simp [hkey, hid, Option.filter]

theorem Registered.write (hreg : Registered t nhaThau store) {row : BidRow}
    (hrow : writtenBid (store.bids.get? item.id) item = some row) (hactive : row.archived = false)
    (hroots : ∀ participant ∈ row.participants t, (contractorRoot nhaThau participant).isSome)
    (hnodup : (row.keys t nhaThau).Nodup) (hapart : ∀ id other, id ≠ item.id → activeBid store id = some other →
      ∀ key ∈ row.keys t nhaThau, key ∉ other.keys t nhaThau) :
    ∃ store', writeOpening t nhaThau store item = some store' ∧ store'.bids = store.bids.set item.id row ∧
      Registered t nhaThau store' := by
  have hfree : ∀ key ∈ participantKeys t nhaThau row (row.participants t).eraseDups,
      ((participantKeys t nhaThau row (row.participants t).eraseDups).foldl (releaseStale (store.bids.set item.id row))
        (store.registry.filterEntries fun _ owner => owner ≠ item.id)).get? key = none := by
    intro key hkey
    rw [get?_released, filter_eq_none_iff]
    intro owner howner
    by_cases hid : owner = item.id
    · simp [hid]
    cases hother : activeBid store owner with
    | none =>
      have hinactive : ((store.bids.set item.id row).get? owner).any (fun row => !row.archived) = false := by
        rw [Dict.get?_set_of_ne _ _ hid]
        by_contra hany
        obtain ⟨other, hactive'⟩ :=
          (@any_active_iff store.bids store.registry owner).mp (Bool.not_eq_false _ ▸ hany)
        rw [show (⟨store.bids, store.registry⟩ : OpeningStore) = store from rfl, hother] at hactive'
        cases hactive'
      simp [hkey, hinactive]
    | some other =>
      have hmem := (hreg.entry owner other hother key).mp howner
      exact absurd hmem (hapart owner other hid hother key (mem_participantKeys_eraseDups.mp hkey))
  obtain ⟨registry, hregistry⟩ := @enterParticipants_isSome item.id _ (nodup_participantKeys_eraseDups hnodup) _ hfree
  obtain ⟨_, hget⟩ := enterParticipants_spec hregistry
  refine ⟨⟨store.bids.set item.id row, registry⟩, ?_, rfl, ?_⟩
  · rw [writeOpening_eq store item hrow, hregistry]
    rfl
  · constructor
    · intro id other hother participant hmem
      rw [activeBid_set store item.id hactive] at hother
      split at hother
      · rw [← some.inj hother] at hmem
        exact hroots participant hmem
      · exact hreg.contractor id other hother participant hmem
    · intro id other hother key
      rw [activeBid_set store item.id hactive] at hother
      dsimp only
      rw [hget]
      simp only [mem_participantKeys_eraseDups]
      split at hother
      · rename_i hid
        subst hid
        cases hother
        by_cases hkey : key ∈ row.keys t nhaThau
        · simp [hkey]
        · rw [if_neg hkey, get?_released]
          simp [hkey, filter_eq_some_iff]
      · rename_i hid
        by_cases hkey : key ∈ row.keys t nhaThau
        · rw [if_pos hkey]
          have hnot := hapart id other hid hother key hkey
          simp [hnot, Ne.symm hid]
        · rw [if_neg hkey, get?_released, ← hreg.entry id other hother key]
          have hkey' : key ∉ participantKeys t nhaThau row (row.participants t).eraseDups :=
            mt mem_participantKeys_eraseDups.mp hkey
          simp [filter_eq_some_iff, hkey', hid]

theorem free_of_writeOpening (hrow : writtenBid (store.bids.get? item.id) item = some row) {store' : OpeningStore}
    (h : writeOpening t nhaThau store item = some store')
    (hkey : key ∈ row.keys t nhaThau) {owner : String} (howner : store.registry.get? key = some owner)
    (hne : owner ≠ item.id) : activeBid store owner = none := by
  rw [writeOpening_eq store item hrow] at h
  obtain ⟨registry, hregistry, _⟩ := map_eq_some_iff.mp h
  have hmem := mem_participantKeys_eraseDups.mpr hkey
  have hfree := (enterParticipants_spec hregistry).1 key hmem
  rw [get?_released, filter_eq_none_iff] at hfree
  have hstale := hfree owner howner
  cases hother : activeBid store owner with
  | none => rfl
  | some other =>
    have hany : ((store.bids.set item.id row).get? owner).any (fun row => !row.archived) = true := by
      rw [Dict.get?_set_of_ne _ _ hne]
      exact (@any_active_iff store.bids store.registry owner).mpr ⟨other, hother⟩
    simp [hne, hany] at hstale

/-! ## The batch -/

/-- A batch the sync service writes: a bid once, clean ids, no archived bid. -/
structure Batch (store : OpeningStore) (items : List OpeningItem) : Prop where
  nodup : (items.map OpeningItem.id).Nodup
  clean : ∀ item ∈ items, item.Clean
  active : ∀ item ∈ items, ∀ row, store.bids.get? item.id = some row → row.archived = false

/-- When the bids of a batch do not get in each other's way. -/
structure Separable (t : PyText) (nhaThau : Dict String String) (store : OpeningStore) (items : List OpeningItem) : Prop where
  /-- Every bid has its package and its contractor, and the participants are stored contractors. -/
  written : ∀ item ∈ items, ∃ row, writtenBid (store.bids.get? item.id) item = some row ∧
    ∀ participant ∈ row.participants t, (contractorRoot nhaThau participant).isSome
  /-- Lot codes that are one scope to the registry are one scope to the validator. -/
  scopes : ∀ record ∈ openingRecords store items, ∀ other ∈ openingRecords store items,
    record.id ∈ items.map OpeningItem.id → record.id ≠ other.id →
    (record.goiThauId.bind fun id => idOf (.str id)) = (other.goiThauId.bind fun id => idOf (.str id)) →
    (∃ participant ∈ incomingParticipantIds t record, ∃ participant' ∈ incomingParticipantIds t other, ∃ root,
      contractorRoot nhaThau participant = some root ∧ contractorRoot nhaThau participant' = some root) →
    registryLotScope t record.maPhanLo = registryLotScope t other.maPhanLo →
    normalizeLotScope t record.maPhanLo = normalizeLotScope t other.maPhanLo
  /-- No bid takes over a key that another bid of the batch is stored with. -/
  takeover : ∀ item ∈ items, ∀ other ∈ items, item.id ≠ other.id → ∀ row row',
    writtenBid (store.bids.get? item.id) item = some row → store.bids.get? other.id = some row' →
    ∀ key ∈ row.keys t nhaThau, key ∉ row'.keys t nhaThau

theorem archived_writtenBid (hstored : ∀ row, stored = some row → row.archived = false)
    {row : BidRow} (h : writtenBid stored item = some row) : row.archived = false := by
  unfold writtenBid at h
  obtain ⟨goiThauId, _, h⟩ := bind_eq_some_iff.mp h
  obtain ⟨nhaThauId, _, rfl⟩ := map_eq_some_iff.mp h
  cases stored with
  | none => rfl
  | some old => exact hstored old rfl

theorem Batch.activeBid_eq (hbatch : Batch store items) (hitem : item ∈ items) :
    activeBid store item.id = store.bids.get? item.id := by
  unfold activeBid
  cases hget : store.bids.get? item.id with
  | none => rfl
  | some row => simp [Option.filter, hbatch.active item hitem row hget]

theorem mem_openingRecords_of_item (hitem : item ∈ items) :
    mergedRecord (activeBid store item.id) item ∈ openingRecords store items :=
  mem_append_right _ (mem_map.mpr ⟨item, hitem, rfl⟩)

theorem mem_openingRecords_of_stored (hget : store.bids.get? id = some row)
    (hactive : row.archived = false) (hid : id ∉ items.map OpeningItem.id) :
    storedRecord id row ∈ openingRecords store items := by
  refine mem_append_left _ (mem_map.mpr ⟨(id, row), mem_filter.mpr ⟨?_, ?_⟩, rfl⟩)
  · exact (Dict.mem_entries_iff _ _ _).mpr hget
  · simpa [hactive] using hid

theorem readsAs_of_item (hclean : CleanBids store) (hbatch : Batch store items)
    (hitem : item ∈ items) {row : BidRow} (hrow : writtenBid (store.bids.get? item.id) item = some row) :
    ReadsAs t row (mergedRecord (activeBid store item.id) item) := by
  rw [hbatch.activeBid_eq hitem]
  exact writtenBid_readsAs (hbatch.clean item hitem) (fun old hold => hclean.goiThauId _ old hold)
    (fun old hold => hclean.nhaThauId _ old hold) hrow

section Accepted

variable (haccepted : validateOpeningParticipantUniqueness t nhaThau store items = [])

include haccepted

theorem disjoint_of_accepted (hseparable : Separable t nhaThau store items) {record other : OpeningRecord}
    (hrecord : record ∈ openingRecords store items) (hother : other ∈ openingRecords store items)
    (hincoming : record.id ∈ items.map OpeningItem.id) (hne : record.id ≠ other.id) {row' : BidRow}
    (hrow : ReadsAs t row record) (hrow' : ReadsAs t row' other)
    (hkey : key ∈ row.keys t nhaThau) : key ∉ row'.keys t nhaThau := by
  intro hkey'
  obtain ⟨participant, hmem, root, hroot, rfl⟩ := mem_keys.mp hkey
  obtain ⟨participant', hmem', root', hroot', heq⟩ := mem_keys.mp hkey'
  obtain ⟨hpackage, hscope, rfl⟩ : row'.goiThauId = row.goiThauId ∧
      registryLotScope t row'.maPhanLo = registryLotScope t row.maPhanLo ∧ root' = root := by
    simpa using heq
  rw [← hrow.participants] at hmem
  rw [← hrow'.participants] at hmem'
  have hpackages : (record.goiThauId.bind fun id => idOf (.str id)) = other.goiThauId.bind fun id => idOf (.str id) := by
    rw [hrow.goiThauId, hrow'.goiThauId, hpackage]
  have hscopes := hseparable.scopes record hrecord other hother hincoming hne hpackages
    ⟨participant, hmem, participant', hmem', root', hroot, hroot'⟩ (hrow.maPhanLo.trans (hscope.symm.trans hrow'.maPhanLo.symm))
  have hne' : items ≠ [] := by
    rintro rfl
    exact absurd hincoming not_mem_nil
  have happart := apart_of_accepted haccepted hne'
  have hsymm : Std.Symm fun o o' : Occurrence => o.key = o'.key →
      o.bidId ∉ items.map OpeningItem.id ∧ o'.bidId ∉ items.map OpeningItem.id :=
    ⟨fun o o' h heq => (h heq.symm).symm⟩
  have ho : (⟨record.id, (record.goiThauId.bind fun id => idOf (.str id), normalizeLotScope t record.maPhanLo,
      (contractorRoot nhaThau participant).getD participant), record.maPhanLo⟩ : Occurrence) ∈
        (openingRecords store items).flatMap (occurrences t nhaThau) :=
    mem_flatMap.mpr ⟨record, hrecord, mem_map.mpr ⟨participant, hmem, rfl⟩⟩
  have ho' : (⟨other.id, (other.goiThauId.bind fun id => idOf (.str id), normalizeLotScope t other.maPhanLo,
      (contractorRoot nhaThau participant').getD participant'), other.maPhanLo⟩ : Occurrence) ∈
        (openingRecords store items).flatMap (occurrences t nhaThau) :=
    mem_flatMap.mpr ⟨other, hother, mem_map.mpr ⟨participant', hmem', rfl⟩⟩
  have hboth := happart.forall ho ho' (fun heq => hne (congrArg Occurrence.bidId heq))
    (by rw [hpackages, hscopes, hroot, hroot']; rfl)
  exact hboth.1 hincoming

theorem nodup_keys_of_accepted {record : OpeningRecord} (hrecord : record ∈ openingRecords store items)
    (hincoming : record.id ∈ items.map OpeningItem.id) (hrow : ReadsAs t row record) : (row.keys t nhaThau).Nodup := by
  have hne' : items ≠ [] := by
    rintro rfl
    exact absurd hincoming not_mem_nil
  have hown := (pairwise_flatMap.mp (apart_of_accepted haccepted hne')).1 record hrecord
  unfold occurrences at hown
  rw [pairwise_map, hrow.participants] at hown
  unfold BidRow.keys participantKeys
  rw [map_filterMap]
  unfold List.Nodup
  rw [pairwise_filterMap]
  refine hown.imp_of_mem ?_
  intro participant participant' hmem hmem' hdifferent key hkey key' hkey' heq
  obtain ⟨root, hroot, rfl⟩ := map_eq_some_iff.mp hkey
  obtain ⟨root', hroot', rfl⟩ := map_eq_some_iff.mp hkey'
  obtain rfl : root = root' := by simpa using heq
  refine (hdifferent ?_).1 hincoming
  dsimp only
  rw [hroot, hroot']
  rfl

end Accepted

/-! ## The batch is written in any order -/

def RowOf (store : OpeningStore) (items : List OpeningItem) (id : String) (row : BidRow) : Prop :=
  store.bids.get? id = some row ∨
    ∃ item ∈ items, item.id = id ∧ writtenBid (store.bids.get? item.id) item = some row

variable {rest : List OpeningItem}

theorem writeOpenings_registered
    (hrest : ∀ item ∈ rest, item ∈ items) (hnodup : (rest.map OpeningItem.id).Nodup) (hbatch : Batch store items)
    (hwritten : ∀ item ∈ items, ∃ row, writtenBid (store.bids.get? item.id) item = some row ∧
      (∀ participant ∈ row.participants t, (contractorRoot nhaThau participant).isSome) ∧
      (row.keys t nhaThau).Nodup ∧ ∀ id other, id ≠ item.id → other.archived = false →
        RowOf store items id other → ∀ key ∈ row.keys t nhaThau, key ∉ other.keys t nhaThau)
    {current : OpeningStore} (hcurrent : Registered t nhaThau current)
    (hrows : ∀ id row, current.bids.get? id = some row → RowOf store items id row)
    (hpending : ∀ item ∈ rest, current.bids.get? item.id = store.bids.get? item.id) :
    ∃ final, writeOpenings t nhaThau current rest = some final ∧ Registered t nhaThau final := by
  induction rest generalizing current with
  | nil => exact ⟨current, rfl, hcurrent⟩
  | cons item rest ih =>
    rw [map_cons, nodup_cons] at hnodup
    have hitem := hrest item mem_cons_self
    obtain ⟨row, hrow, hroots, hkeys, hapart⟩ := hwritten item hitem
    have hstored := hpending item mem_cons_self
    have hactive := archived_writtenBid (hbatch.active item hitem) hrow
    obtain ⟨next, hnext, hbids, hregistered⟩ := hcurrent.write (hstored ▸ hrow) hactive hroots hkeys
      fun id other hid hother => by
        obtain ⟨hget, hnot⟩ := activeBid_eq_some.mp hother
        exact hapart id other hid hnot (hrows id other hget)
    have hrows' : ∀ id other, next.bids.get? id = some other → RowOf store items id other := by
      intro id other hget
      rw [hbids, Dict.get?_set] at hget
      split at hget
      · rename_i hid
        rw [← some.inj hget]
        exact .inr ⟨item, hitem, hid.symm, hrow⟩
      · exact hrows id other hget
    have hpending' : ∀ other ∈ rest, next.bids.get? other.id = store.bids.get? other.id := by
      intro other hother
      have hne : other.id ≠ item.id := fun heq => hnodup.1 (mem_map.mpr ⟨other, hother, heq⟩)
      rw [hbids, Dict.get?_set_of_ne _ _ hne]
      exact hpending other (mem_cons_of_mem item hother)
    obtain ⟨final, hfinal, hreg⟩ := ih (fun other hother => hrest other (mem_cons_of_mem item hother))
      hnodup.2 hregistered hrows' hpending'
    refine ⟨final, ?_, hreg⟩
    unfold writeOpenings at hfinal ⊢
    rw [foldlM_cons, hnext]
    exact hfinal

theorem bids_of_writeOpenings (hnodup : (rest.map OpeningItem.id).Nodup)
    {current final : OpeningStore} (h : writeOpenings t nhaThau current rest = some final) :
    (∀ item ∈ rest, ∃ row, writtenBid (current.bids.get? item.id) item = some row ∧
      final.bids.get? item.id = some row) ∧
      ∀ id, id ∉ rest.map OpeningItem.id → final.bids.get? id = current.bids.get? id := by
  induction rest generalizing current with
  | nil =>
    obtain rfl : current = final := some.inj h
    exact ⟨fun item hitem => absurd hitem not_mem_nil, fun _ _ => rfl⟩
  | cons item rest ih =>
    rw [map_cons, nodup_cons] at hnodup
    unfold writeOpenings at h
    rw [foldlM_cons] at h
    obtain ⟨next, hnext, hrest⟩ := bind_eq_some_iff.mp h
    obtain ⟨hitems, hothers⟩ := ih hnodup.2 hrest
    have hrow : ∃ row, writtenBid (current.bids.get? item.id) item = some row := by
      unfold writeOpening at hnext
      obtain ⟨row, hrow, _⟩ := bind_eq_some_iff.mp hnext
      exact ⟨row, hrow⟩
    obtain ⟨row, hrow⟩ := hrow
    have hbids : next.bids = current.bids.set item.id row := by
      rw [writeOpening_eq current item hrow] at hnext
      obtain ⟨registry, _, rfl⟩ := map_eq_some_iff.mp hnext
      rfl
    constructor
    · intro other hother
      rcases mem_cons.mp hother with rfl | hother
      · refine ⟨row, hrow, ?_⟩
        rw [hothers other.id hnodup.1, hbids, Dict.get?_set_self]
      · have hne : other.id ≠ item.id := fun heq => hnodup.1 (mem_map.mpr ⟨other, hother, heq⟩)
        obtain ⟨row', hrow', hget⟩ := hitems other hother
        rw [hbids, Dict.get?_set_of_ne _ _ hne] at hrow'
        exact ⟨row', hrow', hget⟩
    · intro id hid
      rw [map_cons, mem_cons, not_or] at hid
      rw [hothers id hid.2, hbids, Dict.get?_set_of_ne _ _ hid.1]

/-- An accepted batch is written in every order, and leaves the registry of the active bids, exactly when its
bids do not get in each other's way. -/
theorem batch_written_iff (t : PyText) (nhaThau : Dict String String) (store : OpeningStore)
    (items : List OpeningItem) (hclean : CleanBids store) (hregistered : Registered t nhaThau store)
    (hbatch : Batch store items) (haccepted : validateOpeningParticipantUniqueness t nhaThau store items = []) :
    (∀ order : List OpeningItem, order.Perm items →
      ∃ final, writeOpenings t nhaThau store order = some final ∧ Registered t nhaThau final) ↔
      Separable t nhaThau store items := by
  constructor
  · intro hall
    obtain ⟨final, hfinal, hreg⟩ := hall items (List.Perm.refl items)
    obtain ⟨hitems, hothers⟩ := bids_of_writeOpenings hbatch.nodup hfinal
    have hactive : ∀ item ∈ items, ∀ row, writtenBid (store.bids.get? item.id) item = some row →
        activeBid final item.id = some row := by
      intro item hitem row hrow
      obtain ⟨row', hrow', hget⟩ := hitems item hitem
      rw [hrow] at hrow'
      rw [some.inj hrow']
      exact activeBid_eq_some.mpr ⟨hget, some.inj hrow' ▸ archived_writtenBid (hbatch.active item hitem) hrow⟩
    -- the row of a record is an active bid at the end
    have hfinalRow : ∀ record ∈ openingRecords store items, ∃ row,
        activeBid final record.id = some row ∧ ReadsAs t row record := by
      intro record hrecord
      rcases mem_append.mp hrecord with hrecord | hrecord
      · obtain ⟨⟨id, row⟩, hmem, rfl⟩ := mem_map.mp hrecord
        obtain ⟨hentry, hkept⟩ := mem_filter.mp hmem
        have hget := (Dict.mem_entries_iff _ _ _).mp hentry
        simp only [Bool.and_eq_true, Bool.not_eq_true', decide_eq_true_eq] at hkept
        refine ⟨row, activeBid_eq_some.mpr ⟨?_, hkept.1⟩, storedRecord_readsAs hclean hget⟩
        exact (hothers id hkept.2).trans hget
      · obtain ⟨item, hitem, rfl⟩ := mem_map.mp hrecord
        obtain ⟨row, hrow, _⟩ := hitems item hitem
        exact ⟨row, hactive item hitem row hrow, readsAs_of_item hclean hbatch hitem hrow⟩
    refine ⟨?_, ?_, ?_⟩
    · intro item hitem
      obtain ⟨row, hrow, _⟩ := hitems item hitem
      exact ⟨row, hrow, hreg.contractor item.id row (hactive item hitem row hrow)⟩
    · intro record hrecord other hother _ hne hpackages hroots hscopes
      -- the two bids would have an entry in common
      exfalso
      obtain ⟨row, hrow, hreads⟩ := hfinalRow record hrecord
      obtain ⟨row', hrow', hreads'⟩ := hfinalRow other hother
      obtain ⟨participant, hmem, participant', hmem', root, hroot, hroot'⟩ := hroots
      have hkey : (row.goiThauId, registryLotScope t row.maPhanLo, root) ∈ row.keys t nhaThau :=
        mem_keys.mpr ⟨participant, hreads.participants ▸ hmem, root, hroot, rfl⟩
      have hkey' : (row.goiThauId, registryLotScope t row.maPhanLo, root) ∈ row'.keys t nhaThau := by
        refine mem_keys.mpr ⟨participant', hreads'.participants ▸ hmem', root, hroot', ?_⟩
        rw [hreads.goiThauId, hreads'.goiThauId] at hpackages
        rw [← hreads.maPhanLo, ← hreads'.maPhanLo, hscopes, some.inj hpackages]
      have hentry := (hreg.entry record.id row hrow _).mpr hkey
      rw [(hreg.entry other.id row' hrow' _).mpr hkey'] at hentry
      exact hne (some.inj hentry).symm
    · intro item hitem other hother hne row row' hrow hrow' key hkey hkey'
      -- the bid that takes over is written first
      obtain ⟨final', hfinal', _⟩ := hall (item :: items.erase item) (perm_cons_erase hitem).symm
      unfold writeOpenings at hfinal'
      rw [foldlM_cons] at hfinal'
      obtain ⟨next, hnext, _⟩ := bind_eq_some_iff.mp hfinal'
      have hother' : activeBid store other.id = some row' :=
        activeBid_eq_some.mpr ⟨hrow', hbatch.active other hother row' hrow'⟩
      have hentry := (hregistered.entry other.id row' hother' key).mpr hkey'
      have hnone := free_of_writeOpening hrow hnext hkey hentry hne.symm
      rw [hother'] at hnone
      cases hnone
  · intro hseparable order horder
    have hwritten : ∀ item ∈ items, ∃ row, writtenBid (store.bids.get? item.id) item = some row ∧
        (∀ participant ∈ row.participants t, (contractorRoot nhaThau participant).isSome) ∧
        (row.keys t nhaThau).Nodup ∧ ∀ id other, id ≠ item.id → other.archived = false →
          RowOf store items id other → ∀ key ∈ row.keys t nhaThau, key ∉ other.keys t nhaThau := by
      intro item hitem
      obtain ⟨row, hrow, hroots⟩ := hseparable.written item hitem
      have hreads : ReadsAs t row (mergedRecord (activeBid store item.id) item) :=
        readsAs_of_item hclean hbatch hitem hrow
      have hrecord := @mem_openingRecords_of_item store items item hitem
      have hincoming : (mergedRecord (activeBid store item.id) item).id ∈ items.map OpeningItem.id :=
        mem_map_of_mem hitem
      refine ⟨row, hrow, hroots, nodup_keys_of_accepted haccepted hrecord hincoming hreads, ?_⟩
      intro id other hid hactive hrowOf key hkey
      rcases hrowOf with hget | ⟨item', hitem', rfl, hrow'⟩
      · by_cases hmem : id ∈ items.map OpeningItem.id
        · obtain ⟨item', hitem', rfl⟩ := mem_map.mp hmem
          exact hseparable.takeover item hitem item' hitem' hid.symm row other hrow hget key hkey
        · exact disjoint_of_accepted haccepted hseparable hrecord
            (mem_openingRecords_of_stored hget hactive hmem) hincoming hid.symm hreads (storedRecord_readsAs hclean hget) hkey
      · exact disjoint_of_accepted haccepted hseparable hrecord (mem_openingRecords_of_item hitem') hincoming
          hid.symm hreads (readsAs_of_item hclean hbatch hitem' hrow') hkey
    have hnodup : (order.map OpeningItem.id).Nodup := (horder.map _).nodup_iff.mpr hbatch.nodup
    exact writeOpenings_registered (fun item hitem => horder.mem_iff.mp hitem) hnodup hbatch hwritten
      hregistered (fun id row hget => .inl hget) fun item _ => rfl

def sampleContractors : Dict String String := .ofList (["j1", "j2", "v", "w", "x", "y", "z"].map (·, ""))

def jointVenture (nhaThauId : String) (members : List String) : BidRow :=
  ⟨"p", nhaThauId, "", "liên danh", false, members⟩

def sampleOpenings : OpeningStore where
  bids := .ofList [("b1", jointVenture "j1" ["x", "v"]), ("b2", jointVenture "j2" ["y", "w"])]
  registry := .ofList [(("p", "__PACKAGE__", "x"), "b1"), (("p", "__PACKAGE__", "v"), "b1"),
    (("p", "__PACKAGE__", "y"), "b2"), (("p", "__PACKAGE__", "w"), "b2")]

def membersItem (id : String) (members : List String) : OpeningItem := ⟨id, none, none, none, none, some members⟩

theorem sampleOpenings_get? (h : sampleOpenings.bids.get? id = some row) :
    (id = "b1" ∧ row = jointVenture "j1" ["x", "v"]) ∨ (id = "b2" ∧ row = jointVenture "j2" ["y", "w"]) := by
  have hmem := (Dict.mem_entries_iff _ _ _).mpr h
  have hentries : sampleOpenings.bids.entries =
      [("b1", jointVenture "j1" ["x", "v"]), ("b2", jointVenture "j2" ["y", "w"])] := rfl
  rw [hentries] at hmem
  simpa using hmem

theorem sampleOpenings_clean : CleanBids sampleOpenings where
  goiThauId id row h := by
    rcases sampleOpenings_get? h with ⟨_, rfl⟩ | ⟨_, rfl⟩
    · decide
    · decide
  nhaThauId id row h := by
    rcases sampleOpenings_get? h with ⟨_, rfl⟩ | ⟨_, rfl⟩
    · decide
    · decide

theorem sampleOpenings_registered : Registered .plain sampleContractors sampleOpenings where
  contractor id row h := by
    rcases sampleOpenings_get? (activeBid_eq_some.mp h).1 with ⟨_, rfl⟩ | ⟨_, rfl⟩
    · decide
    · decide
  entry id row h key := by
    have hregistry : sampleOpenings.registry.entries =
        [(("p", "__PACKAGE__", "x"), "b1"), (("p", "__PACKAGE__", "v"), "b1"),
          (("p", "__PACKAGE__", "y"), "b2"), (("p", "__PACKAGE__", "w"), "b2")] := rfl
    rw [← Dict.mem_entries_iff, hregistry]
    rcases sampleOpenings_get? (activeBid_eq_some.mp h).1 with ⟨rfl, rfl⟩ | ⟨rfl, rfl⟩
    · have hkeys : (jointVenture "j1" ["x", "v"]).keys .plain sampleContractors =
          [("p", "__PACKAGE__", "x"), ("p", "__PACKAGE__", "v")] := by
        decide
      rw [hkeys]
      simp
    · have hkeys : (jointVenture "j2" ["y", "w"]).keys .plain sampleContractors =
          [("p", "__PACKAGE__", "y"), ("p", "__PACKAGE__", "w")] := by
        decide
      rw [hkeys]
      simp

theorem sample_batch (members members' : List String) :
    Batch sampleOpenings [membersItem "b1" members, membersItem "b2" members'] where
  nodup := by simp [membersItem]
  clean item hitem := by
    rcases mem_pair.mp hitem with rfl | rfl
    · exact ⟨fun _ h => (nomatch h), fun _ h => (nomatch h)⟩
    · exact ⟨fun _ h => (nomatch h), fun _ h => (nomatch h)⟩
  active item _ row h := by
    rcases sampleOpenings_get? h with ⟨_, rfl⟩ | ⟨_, rfl⟩
    · rfl
    · rfl

def replacedMembers : List OpeningItem := [membersItem "b1" ["x", "z"], membersItem "b2" ["w", "y"]]

theorem batch_written_iff_sample : (∀ order : List OpeningItem, order.Perm replacedMembers →
    ∃ final, writeOpenings .plain sampleContractors sampleOpenings order = some final ∧
      Registered .plain sampleContractors final) ↔
    Separable .plain sampleContractors sampleOpenings replacedMembers :=
  batch_written_iff .plain sampleContractors sampleOpenings replacedMembers sampleOpenings_clean
    sampleOpenings_registered (sample_batch _ _) (by decide)

def exchangedMembers : List OpeningItem := [membersItem "b1" ["y", "v"], membersItem "b2" ["x", "w"]]

/-- The validator accepts the exchange, and no order of writes survives it. -/
theorem exchange_not_written : CleanBids sampleOpenings ∧ Registered .plain sampleContractors sampleOpenings ∧
    Batch sampleOpenings exchangedMembers ∧
    validateOpeningParticipantUniqueness .plain sampleContractors sampleOpenings exchangedMembers = [] ∧
    ∀ order : List OpeningItem, order = exchangedMembers ∨ order = exchangedMembers.reverse →
      (writeOpenings .plain sampleContractors sampleOpenings order).isNone := by
  refine ⟨sampleOpenings_clean, sampleOpenings_registered, sample_batch _ _, by decide, ?_⟩
  rintro order (rfl | rfl)
  · decide
  · decide

end Bidding.Packages
