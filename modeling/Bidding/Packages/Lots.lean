import Mathlib.Data.List.Sort
import Bidding.Foundations.Collation
import Bidding.Sync.Text

/-!
# The lots of a package

A saved package carries its lots as a list. Every lot is written over the stored row its code
finds, else over the row its own id names, else as a new row; what was active and is not written is
archived.
-/

namespace Bidding.Packages

open Foundations List Dict
open Option hiding map_map

abbrev Item : Type := Dict String Scalar

/-- `_first_value(item, *keys, default=fallback)`. -/
def firstValue (item : Item) (keys : List String) (fallback : Scalar) : Scalar :=
  ((keys.find? item.contains).bind item.get?).getD fallback

def childMoney (value : Scalar) : ℕ := (parseVndAmount value).getD 0

/-- The columns a saved lot has. -/
structure LotColumns where
  maPhanLo : Scalar
  maPhanLoNormalized : String
  tenPhanLo : Scalar
  giaTriPhanLo : ℕ
  baoDamDuThau : ℕ
  thoiGianThucHien : Scalar
  nhaThauTrungThauId : Scalar
  giaTrungThau : ℕ
  thoiGianGoiThau : Scalar
  thoiGianHopDong : Scalar
  sortOrder : ℕ
  deriving DecidableEq

/-- A row of `goi_thau_phan_lo`. -/
structure LotRow where
  goiThauId : String
  columns : LotColumns
  archived : Bool
  deriving DecidableEq

abbrev LotTable : Type := Dict String LotRow

def lotMatchKey (t : PyText) (row : Item) : String :=
  normalizeLotCode t (firstValue row ["maPhanLo", "ma_phan_lo", "tenPhanLo", "ten_phan_lo"] (.str ""))

/-- The rows in order, and `merged_by_key`: the position of the row a key names. -/
structure Merge where
  byKey : Dict String ℕ
  ordered : List Item

def addLot (t : PyText) (merge : Merge) (row : Item) : Merge :=
  let key := lotMatchKey t row
  ⟨merge.byKey.set (if key = "" then "idx:" ++ toString merge.ordered.length else key) merge.ordered.length,
    merge.ordered ++ [row]⟩

/-- The columns of an award are put over the row. -/
def awarded (award target : Item) : Item :=
  (((target.set "nhaThauTrungThauId"
    (firstValue award ["nhaThauTrungThauId", "nha_thau_trung_thau_id"] (.str ""))).set "giaTrungThau"
    (firstValue award ["giaTrungThau", "gia_trung_thau"] (.int 0))).set "thoiGianGoiThau"
    (firstValue award ["thoiGianGoiThau", "thoi_gian_goi_thau"] (.str ""))).set "thoiGianHopDong"
    (firstValue award ["thoiGianHopDong", "thoi_gian_hop_dong"] (.str ""))

/-- The row an award without a lot makes. -/
def awardTarget (award : Item) : Item :=
  ((empty.set "id" (firstValue award ["id"] .none)).set "maPhanLo"
    (firstValue award ["maPhanLo", "ma_phan_lo"] (.str ""))).set "tenPhanLo"
    (firstValue award ["tenPhanLo", "ten_phan_lo"] (.str ""))

def addAward (t : PyText) (merge : Merge) (award : Item) : Merge :=
  let key := lotMatchKey t award
  match merge.byKey.get? key with
  | some position => ⟨merge.byKey, merge.ordered.modify position (awarded award)⟩
  | none =>
    ⟨merge.byKey.set (if key = "" then "award:" ++ toString merge.ordered.length else key) merge.ordered.length,
      merge.ordered ++ [awarded award (awardTarget award)]⟩

def mergeLots (t : PyText) (lots awards : List Item) : List Item :=
  (awards.foldl (addAward t) (lots.foldl (addLot t) ⟨empty, []⟩)).ordered

/-- `ORDER BY (archived_at IS NOT NULL), id`. -/
def rowsBefore (collation : Collation) (a b : String × LotRow) : Prop :=
  (a.2.archived = false ∧ b.2.archived = true) ∨
    (a.2.archived = b.2.archived ∧ (a.1 : Collated collation) ≤ b.1)

instance (collation : Collation) : DecidableRel (rowsBefore collation) := fun a b => by
  unfold rowsBefore
  exact instDecidableOr

/-- The rows of a package, the active ones first. -/
def packageRows (collation : Collation) (table : LotTable) (parent : String) : List (String × LotRow) :=
  (table.entries.filter fun row => row.2.goiThauId = parent).insertionSort (rowsBefore collation)

def setDefaultId (t : PyText) (result : Dict String String) (row : String × LotRow) : Dict String String :=
  let key := normalizeLotCode t (.str row.2.columns.maPhanLoNormalized)
  match idOf (.str row.1) with
  | some id => if key = "" ∨ result.contains key then result else result.set key id
  | none => result

def existingLotIdsByKey (t : PyText) (collation : Collation) (table : LotTable) (parent : String) : Dict String String :=
  (packageRows collation table parent).foldl (setDefaultId t) empty

/-- The id a row is saved under; `newId` is what `generate_record_id` returns for it. -/
def rowId (t : PyText) (existing : Dict String String) (newId : String) (row : Item) : String :=
  (existing.get? (lotMatchKey t row)).getD ((idOf (firstValue row ["id"] .none)).getD newId)

def lotColumns (t : PyText) (row : Item) (index : ℕ) : LotColumns where
  maPhanLo := firstValue row ["maPhanLo", "ma_phan_lo"] (.str "")
  maPhanLoNormalized := normalizeLotCode t (firstValue row ["maPhanLo", "ma_phan_lo"] (.str ""))
  tenPhanLo := firstValue row ["tenPhanLo", "ten_phan_lo"] (.str "")
  giaTriPhanLo := childMoney (firstValue row ["giaTriPhanLo", "gia_tri_phan_lo"] .none)
  baoDamDuThau := childMoney (firstValue row ["baoDamDuThau", "bao_dam_du_thau"] .none)
  thoiGianThucHien := firstValue row ["thoiGianThucHien", "thoi_gian_thuc_hien"] (.str "")
  nhaThauTrungThauId := cleanId (firstValue row ["nhaThauTrungThauId", "nha_thau_trung_thau_id"] .none)
  giaTrungThau := childMoney (firstValue row ["giaTrungThau", "gia_trung_thau"] .none)
  thoiGianGoiThau := firstValue row ["thoiGianGoiThau", "thoi_gian_goi_thau"] (.str "")
  thoiGianHopDong := firstValue row ["thoiGianHopDong", "thoi_gian_hop_dong"] (.str "")
  sortOrder := index

/-- `idx_goi_thau_phan_lo_active_code`: another active row of the package has the code. -/
def codeTaken (table : LotTable) (parent id code : String) : Prop :=
  code ≠ "" ∧ ∃ row ∈ table.entries, row.1 ≠ id ∧ row.2.goiThauId = parent ∧ row.2.archived = false ∧
    row.2.columns.maPhanLoNormalized = code

instance (table : LotTable) (parent id code : String) : Decidable (codeTaken table parent id code) := by
  unfold codeTaken
  exact instDecidableAnd

/-- `INSERT … ON CONFLICT (organization_id, id) DO UPDATE … WHERE …`: the table and the number of rows written;
`none` is the violated index. -/
def upsertLot (parent : String) (state : LotTable × ℕ) (row : String × LotColumns) : Option (LotTable × ℕ) :=
  let written : LotRow := ⟨parent, row.2, false⟩
  match state.1.get? row.1 with
  | some stored =>
    if stored.goiThauId ≠ parent then some state
    else if codeTaken state.1 parent row.1 row.2.maPhanLoNormalized then none
    else some (state.1.set row.1 written, state.2 + 1)
  | none =>
    if codeTaken state.1 parent row.1 row.2.maPhanLoNormalized then none
    else some (state.1.set row.1 written, state.2 + 1)

def archiveOthers (parent : String) (retained : List String) (table : LotTable) : LotTable :=
  table.mapEntries fun id row =>
    if row.goiThauId = parent ∧ row.archived = false ∧ id ∉ retained then { row with archived := true } else row

/-- The rows with their ids; `newIds` are the ids `generate_record_id` returns. -/
def lotWrites (t : PyText) (collation : Collation) (newIds : ℕ → String) (table : LotTable) (parent : String)
    (ordered : List Item) : List (String × LotColumns) :=
  ordered.zipIdx.map fun row =>
    (rowId t (existingLotIdsByKey t collation table parent) (newIds row.2) row.1, lotColumns t row.1 row.2)

/-- `_save_lots(…)`; `none` is an exception. -/
def saveLots (t : PyText) (collation : Collation) (newIds : ℕ → String) (table : LotTable) (parent : String)
    (lots awards : List Item) : Option LotTable :=
  let rows := lotWrites t collation newIds table parent (mergeLots t lots awards)
  (rows.foldlM (upsertLot parent) (table, 0)).bind fun state =>
    if rows ≠ [] ∧ state.2 ≠ rows.length then none
    else some (archiveOthers parent (rows.map Prod.fst) state.1)

/-! ## Awards change no code and no id -/

variable {t : PyText} {collation : Collation} {newIds : ℕ → String} {table : LotTable} {parent : String}
  {keys : List String}
  {key : String}

def lotCode (t : PyText) (row : Item) : String :=
  normalizeLotCode t (firstValue row ["maPhanLo", "ma_phan_lo"] (.str ""))

/-- A row with a code. -/
structure HasCode (t : PyText) (row : Item) : Prop where
  field : row.contains "maPhanLo" ∨ row.contains "ma_phan_lo"
  ne_empty : lotCode t row ≠ ""

theorem firstValue_append {item : Item} (h : ∃ key ∈ keys, item.contains key) (others : List String) (fallback : Scalar) :
    firstValue item (keys ++ others) fallback = firstValue item keys fallback := by
  have hfound : (keys.find? item.contains).isSome := by
    obtain ⟨key, hkey, hcontains⟩ := h
    exact find?_isSome.mpr ⟨key, hkey, hcontains⟩
  unfold firstValue
  rw [find?_append, or_of_isSome hfound]

theorem HasCode.lotMatchKey_eq {row : Item} (h : HasCode t row) : lotMatchKey t row = lotCode t row := by
  have hfield : ∃ key ∈ ["maPhanLo", "ma_phan_lo"], row.contains key := by
    rcases h.field with hfield | hfield
    · exact ⟨"maPhanLo", by simp, hfield⟩
    · exact ⟨"ma_phan_lo", by simp, hfield⟩
  exact congrArg (normalizeLotCode t) (firstValue_append hfield ["tenPhanLo", "ten_phan_lo"] _)

def awardFields : List String := ["nhaThauTrungThauId", "giaTrungThau", "thoiGianGoiThau", "thoiGianHopDong"]

theorem get?_awarded (award row : Item) (h : key ∉ awardFields) : (awarded award row).get? key = row.get? key := by
  simp only [awardFields, mem_cons, not_mem_nil, or_false, not_or] at h
  obtain ⟨hwinner, hprice, hstart, hcontract⟩ := h
  unfold awarded
  rw [Dict.get?_set_of_ne _ _ hcontract, Dict.get?_set_of_ne _ _ hstart, Dict.get?_set_of_ne _ _ hprice,
    Dict.get?_set_of_ne _ _ hwinner]

theorem firstValue_awarded (award row : Item) (h : ∀ key ∈ keys, key ∉ awardFields)
    (fallback : Scalar) : firstValue (awarded award row) keys fallback = firstValue row keys fallback := by
  unfold firstValue
  induction keys with
  | nil => rfl
  | cons key keys ih =>
    have hkey := get?_awarded award row (h key mem_cons_self)
    have hcontains : (awarded award row).contains key = row.contains key := by
      unfold Dict.contains
      rw [hkey]
    rw [find?_cons, find?_cons, hcontains]
    cases row.contains key with
    | true => exact congrArg (Option.getD · fallback) hkey
    | false => exact ih fun other hother => h other (mem_cons_of_mem key hother)

def awardRow (t : PyText) (row award : Item) : Item :=
  if lotMatchKey t award = lotMatchKey t row then awarded award row else row

def withAwards (t : PyText) (awards : List Item) (row : Item) : Item := awards.foldl (awardRow t) row

theorem firstValue_awardRow (row award : Item) (h : ∀ key ∈ keys, key ∉ awardFields)
    (fallback : Scalar) : firstValue (awardRow t row award) keys fallback = firstValue row keys fallback := by
  unfold awardRow
  split
  · exact firstValue_awarded award row h fallback
  · rfl

variable (awards : List Item)

theorem firstValue_withAwards (row : Item) (h : ∀ key ∈ keys, key ∉ awardFields) (fallback : Scalar) :
    firstValue (withAwards t awards row) keys fallback = firstValue row keys fallback := by
  unfold withAwards
  induction awards generalizing row with
  | nil => rfl
  | cons award awards ih =>
    rw [foldl_cons, ih]
    exact firstValue_awardRow row award h fallback

theorem lotMatchKey_awardRow (row award : Item) : lotMatchKey t (awardRow t row award) = lotMatchKey t row :=
  congrArg (normalizeLotCode t) (firstValue_awardRow row award (by decide) _)

theorem lotMatchKey_withAwards (row : Item) : lotMatchKey t (withAwards t awards row) = lotMatchKey t row :=
  congrArg (normalizeLotCode t) (firstValue_withAwards awards row (by decide) _)

theorem lotCode_withAwards (row : Item) : lotCode t (withAwards t awards row) = lotCode t row :=
  congrArg (normalizeLotCode t) (firstValue_withAwards awards row (by decide) _)

theorem rowId_withAwards (existing : Dict String String) (newId : String) (awards : List Item) (row : Item) :
    rowId t existing newId (withAwards t awards row) = rowId t existing newId row := by
  unfold rowId
  rw [lotMatchKey_withAwards, firstValue_withAwards awards row (by decide)]

/-! ## The rows that are saved are the submitted ones with their awards -/

def Merge.Names (t : PyText) (merge : Merge) : Prop :=
  ∀ i row, merge.ordered[i]? = some row → merge.byKey.get? (lotMatchKey t row) = some i

theorem addLots_spec {lots : List Item} (hnodup : (lots.map (lotMatchKey t)).Nodup)
    (hcodes : ∀ row ∈ lots, lotMatchKey t row ≠ "") : (lots.foldl (addLot t) ⟨empty, []⟩).ordered = lots ∧
      (lots.foldl (addLot t) ⟨empty, []⟩).Names t := by
  induction lots using List.reverseRecOn with
  | nil => exact ⟨rfl, fun i row hrow => by simp at hrow⟩
  | append_singleton lots row ih =>
    rw [map_append, nodup_append] at hnodup
    obtain ⟨hordered, hnames⟩ :=
      ih hnodup.1 fun other hother => hcodes other (mem_append_left _ hother)
    have hkey : lotMatchKey t row ≠ "" := hcodes row (by simp)
    rw [foldl_append, foldl_cons, foldl_nil]
    generalize lots.foldl (addLot t) ⟨empty, []⟩ = merge at hordered hnames ⊢
    unfold addLot
    dsimp only
    rw [if_neg hkey, hordered]
    refine ⟨rfl, fun i other hother => ?_⟩
    rw [getElem?_append] at hother
    split at hother
    · have hmem : other ∈ lots := mem_of_getElem? hother
      have hne : lotMatchKey t other ≠ lotMatchKey t row :=
        hnodup.2.2 _ (mem_map_of_mem hmem) _ (by simp)
      rw [Dict.get?_set_of_ne _ _ hne]
      exact hnames i other (hordered ▸ hother)
    · have hi : i - lots.length = 0 ∧ row = other := by
        rwa [getElem?_singleton, ite_none_right_eq_some, some.injEq] at hother
      rw [← hi.2, Dict.get?_set_self]
      exact congrArg some (by omega)

theorem modify_eq_map {α : Type} {l : List α} {i : ℕ} {f : α → α} {p : α → Prop} [DecidablePred p]
    (h : ∀ j a, l[j]? = some a → (p a ↔ i = j)) : l.modify i f = l.map fun a => if p a then f a else a := by
  apply ext_getElem?
  intro j
  rw [getElem?_modify, getElem?_map]
  cases ha : l[j]? with
  | none => rfl
  | some a =>
    simp only [map_some, h j a ha]
    rfl

theorem Merge.Names.addAward {merge : Merge} (hnames : merge.Names t) {award : Item}
    (haward : lotMatchKey t award ∈ merge.ordered.map (lotMatchKey t)) :
    (Packages.addAward t merge award).ordered = merge.ordered.map (awardRow t · award) ∧
      (Packages.addAward t merge award).Names t := by
  obtain ⟨row, hrow, hkey⟩ := mem_map.mp haward
  obtain ⟨position, hposition⟩ := mem_iff_getElem?.mp hrow
  have hfound := hnames position row hposition
  rw [hkey] at hfound
  have hmap : merge.ordered.modify position (awarded award) = merge.ordered.map (awardRow t · award) := by
    apply modify_eq_map
    intro j other hother
    have hj := hnames j other hother
    constructor
    · intro heq
      rw [← heq, hfound] at hj
      exact some.inj hj
    · rintro rfl
      rw [hposition] at hother
      rw [← some.inj hother, hkey]
  unfold Packages.addAward
  dsimp only
  rw [hfound]
  refine ⟨hmap, fun j other hother => ?_⟩
  dsimp only at hother ⊢
  rw [hmap, getElem?_map, map_eq_some_iff] at hother
  obtain ⟨before, hbefore, rfl⟩ := hother
  rw [lotMatchKey_awardRow]
  exact hnames j before hbefore

/-- The submitted rows have codes, and no two the same. -/
structure CodesApart (t : PyText) (lots : List Item) : Prop where
  hasCode : ∀ row ∈ lots, HasCode t row
  nodup : (lots.map (lotCode t)).Nodup

theorem CodesApart.map_lotMatchKey {lots : List Item} (h : CodesApart t lots) :
    lots.map (lotMatchKey t) = lots.map (lotCode t) :=
  map_congr_left fun row hrow => (h.hasCode row hrow).lotMatchKey_eq

theorem mergeLots_eq {lots awards : List Item} (hlots : CodesApart t lots)
    (hawards : ∀ award ∈ awards, lotMatchKey t award ∈ lots.map (lotCode t)) :
    mergeLots t lots awards = lots.map (withAwards t awards) := by
  have hnodup : (lots.map (lotMatchKey t)).Nodup := by
    rw [hlots.map_lotMatchKey]
    exact hlots.nodup
  have hcodes : ∀ row ∈ lots, lotMatchKey t row ≠ "" := by
    intro row hrow
    rw [(hlots.hasCode row hrow).lotMatchKey_eq]
    exact (hlots.hasCode row hrow).ne_empty
  have hspec := addLots_spec hnodup hcodes
  rw [← hlots.map_lotMatchKey] at hawards
  unfold mergeLots
  generalize lots.foldl (addLot t) ⟨empty, []⟩ = merge at hspec ⊢
  obtain ⟨hordered, hnames⟩ := hspec
  rw [← hordered] at hawards ⊢
  clear hordered hlots
  induction awards generalizing merge with
  | nil => exact (map_id _).symm
  | cons award awards ih =>
    obtain ⟨hafter, hnames'⟩ := hnames.addAward (hawards award mem_cons_self)
    have hkeys : (addAward t merge award).ordered.map (lotMatchKey t) = merge.ordered.map (lotMatchKey t) := by
      rw [hafter, map_map]
      exact map_congr_left fun row _ => lotMatchKey_awardRow row award
    have hrest : ∀ other ∈ awards, lotMatchKey t other ∈ (addAward t merge award).ordered.map (lotMatchKey t) := by
      intro other hother
      rw [hkeys]
      exact hawards other (mem_cons_of_mem award hother)
    rw [foldl_cons, ih _ hrest hnames', hafter, map_map]
    rfl

/-! ## The stored row of a code -/

/-- What holds of the stored rows of a package: ids are clean, the code column holds what `normalize_lot_code`
returns, and no two active rows have the same code. -/
structure Stored (t : PyText) (table : LotTable) (parent : String) : Prop where
  id : ∀ id row, table.get? id = some row → row.goiThauId = parent → IsStoredId id
  code : ∀ id row, table.get? id = some row → row.goiThauId = parent →
    normalizeLotCode t (.str row.columns.maPhanLoNormalized) = row.columns.maPhanLoNormalized
  active : ∀ id row id' row', table.get? id = some row → table.get? id' = some row' →
    row.goiThauId = parent → row'.goiThauId = parent → row.archived = false → row'.archived = false →
    row.columns.maPhanLoNormalized = row'.columns.maPhanLoNormalized → row.columns.maPhanLoNormalized ≠ "" → id = id'

theorem mem_packageRows {row : String × LotRow} :
    row ∈ packageRows collation table parent ↔ table.get? row.1 = some row.2 ∧ row.2.goiThauId = parent := by
  unfold packageRows
  rw [(perm_insertionSort _ _).mem_iff, mem_filter, mem_entries_iff, decide_eq_true_iff]

def storedKey (t : PyText) (row : String × LotRow) : String :=
  normalizeLotCode t (.str row.2.columns.maPhanLoNormalized)

theorem get?_foldl_setDefaultId {rows : List (String × LotRow)} (hids : ∀ row ∈ rows, IsStoredId row.1)
    (result : Dict String String) (hkey : key ≠ "") : (rows.foldl (setDefaultId t) result).get? key =
      (result.get? key).or ((rows.find? fun row => storedKey t row = key).map Prod.fst) := by
  induction rows generalizing result with
  | nil => simp
  | cons row rows ih =>
    have hid : idOf (.str row.1) = some row.1 := hids row mem_cons_self
    rw [foldl_cons, ih fun other hother => hids other (mem_cons_of_mem row hother), find?_cons]
    have hstep : setDefaultId t result row = if storedKey t row = "" ∨ result.contains (storedKey t row) then result
        else result.set (storedKey t row) row.1 := by
      unfold setDefaultId
      rw [hid]
      rfl
    rw [hstep]
    by_cases heq : storedKey t row = key
    · rw [heq, decide_eq_true rfl]
      cases hget : result.get? key with
      | some id =>
        rw [if_pos (.inr ((Dict.contains_iff _ _).mpr ⟨id, hget⟩)), hget]
        rfl
      | none =>
        have hcontains : ¬(key = "" ∨ result.contains key = true) := by
          rw [Dict.contains_iff, hget]
          simp [hkey]
        rw [if_neg hcontains, Dict.get?_set_self]
        rfl
    · rw [decide_eq_false heq]
      split
      · rfl
      · rw [Dict.get?_set_of_ne _ _ (Ne.symm heq)]

section

variable (h : Stored t table parent)
include h

theorem Stored.get?_existing (hkey : key ≠ "") : (existingLotIdsByKey t collation table parent).get? key =
    ((packageRows collation table parent).find? fun row => storedKey t row = key).map Prod.fst := by
  unfold existingLotIdsByKey
  rw [get?_foldl_setDefaultId _ _ hkey]
  · rfl
  · intro row hrow
    exact h.id row.1 row.2 (mem_packageRows.mp hrow).1 (mem_packageRows.mp hrow).2

theorem Stored.row_of_existing {key id : String} (hkey : key ≠ "")
    (hid : (existingLotIdsByKey t collation table parent).get? key = some id) :
    ∃ row, table.get? id = some row ∧ row.goiThauId = parent ∧ row.columns.maPhanLoNormalized = key := by
  rw [h.get?_existing hkey, map_eq_some_iff] at hid
  obtain ⟨row, hfound, rfl⟩ := hid
  have hrow := mem_packageRows.mp (mem_of_find?_eq_some hfound)
  have hstored : storedKey t row = key := by simpa using find?_some hfound
  refine ⟨row.2, hrow.1, hrow.2, ?_⟩
  rw [← hstored]
  exact (h.code row.1 row.2 hrow.1 hrow.2).symm

theorem Stored.existing_inj {key key' id : String} (hkey : key ≠ "")
    (hkey' : key' ≠ "") (hid : (existingLotIdsByKey t collation table parent).get? key = some id)
    (hid' : (existingLotIdsByKey t collation table parent).get? key' = some id) : key = key' := by
  obtain ⟨row, hrow, _, hcode⟩ := h.row_of_existing hkey hid
  obtain ⟨row', hrow', _, hcode'⟩ := h.row_of_existing hkey' hid'
  rw [hrow] at hrow'
  cases hrow'
  exact hcode.symm.trans hcode'

instance : Std.Total (rowsBefore collation) where
  total a b := by
    unfold rowsBefore
    have hids := le_total (a.1 : Collated collation) (b.1 : Collated collation)
    cases a.2.archived <;> cases b.2.archived <;> simp [hids]

instance : IsTrans (String × LotRow) (rowsBefore collation) where
  trans a b c hab hbc := by
    unfold rowsBefore at hab hbc ⊢
    rcases hab with ⟨ha, hb⟩ | ⟨hab, hle⟩
    · rcases hbc with ⟨hb', _⟩ | ⟨hbc, _⟩
      · rw [hb] at hb'
        exact absurd hb' (by decide)
      · exact .inl ⟨ha, hbc ▸ hb⟩
    · rcases hbc with ⟨hb, hc⟩ | ⟨hbc, hle'⟩
      · exact .inl ⟨hab.trans hb, hc⟩
      · exact .inr ⟨hab.trans hbc, le_trans hle hle'⟩

theorem Stored.existing_of_active {id : String} {row : LotRow}
    (hrow : table.get? id = some row) (hparent : row.goiThauId = parent) (hactive : row.archived = false)
    (hcode : row.columns.maPhanLoNormalized ≠ "") :
    (existingLotIdsByKey t collation table parent).get? row.columns.maPhanLoNormalized = some id := by
  have hmem : (id, row) ∈ packageRows collation table parent := mem_packageRows.mpr ⟨hrow, hparent⟩
  have hstored : storedKey t (id, row) = row.columns.maPhanLoNormalized := h.code id row hrow hparent
  rw [h.get?_existing hcode]
  cases hfound : (packageRows collation table parent).find? fun other => storedKey t other = row.columns.maPhanLoNormalized with
  | none => exact absurd hstored (by simpa using List.find?_eq_none.mp hfound (id, row) hmem)
  | some first =>
    -- what stands before an active row is active
    obtain ⟨hkey, before, after, hsplit, hbefore⟩ := find?_eq_some_iff_append.mp hfound
    have hfirst := mem_packageRows.mp (mem_of_find?_eq_some hfound)
    have hfirstCode : first.2.columns.maPhanLoNormalized = row.columns.maPhanLoNormalized := by
      rw [← h.code first.1 first.2 hfirst.1 hfirst.2]
      exact of_decide_eq_true hkey
    have hsorted : (packageRows collation table parent).Pairwise (rowsBefore collation) :=
      pairwise_insertionSort _ _
    rw [hsplit] at hmem hsorted
    rcases mem_append.mp hmem with hmem | hmem
    · exact absurd (hbefore (id, row) hmem) (by simp [hstored])
    rcases mem_cons.mp hmem with rfl | hmem
    · rfl
    have hle := (pairwise_cons.mp (pairwise_append.mp hsorted).2.1).1 (id, row) hmem
    have hfirstActive : first.2.archived = false := by
      rcases hle with ⟨hfirst, _⟩ | ⟨heq, _⟩
      · exact hfirst
      · exact heq.trans hactive
    have hid : first.1 = id :=
      h.active first.1 first.2 id row hfirst.1 hrow hfirst.2 hparent hfirstActive hactive hfirstCode (hfirstCode ▸ hcode)
    rw [map_some, hid]

end

def writtenRow (parent : String) (row : String × LotColumns) : String × LotRow := (row.1, ⟨parent, row.2, false⟩)

def writeAll (parent : String) (table : LotTable) (rows : List (String × LotColumns)) : LotTable :=
  (rows.map (writtenRow parent)).foldl (fun table row => table.set row.1 row.2) table

theorem map_fst_writtenRow (rows : List (String × LotColumns)) :
    (rows.map (writtenRow parent)).map Prod.fst = rows.map Prod.fst := by
  rw [map_map]
  rfl

variable {rows : List (String × LotColumns)} {state state' : LotTable × ℕ}

theorem get?_writeAll_of_not_mem {id : String}
    (h : id ∉ rows.map Prod.fst) : (writeAll parent table rows).get? id = table.get? id := by
  have hlookup : Dict.lookup id (rows.map (writtenRow parent)).reverse = none := by
    rw [Dict.lookup_eq_none_iff, map_reverse, mem_reverse, map_fst_writtenRow]
    exact h
  unfold writeAll
  rw [Dict.get?_foldl_set, hlookup]
  rfl

theorem get?_writeAll_of_mem {id : String} (h : id ∈ rows.map Prod.fst) :
    ∃ columns, (id, columns) ∈ rows ∧ (writeAll parent table rows).get? id = some ⟨parent, columns, false⟩ := by
  cases hlookup : Dict.lookup id (rows.map (writtenRow parent)).reverse with
  | none =>
    rw [Dict.lookup_eq_none_iff, map_reverse, mem_reverse, map_fst_writtenRow] at hlookup
    exact absurd h hlookup
  | some row =>
    have hmem := mem_reverse.mp (Dict.mem_of_lookup_eq_some hlookup)
    obtain ⟨written, hwritten, heq⟩ := mem_map.mp hmem
    obtain ⟨rfl, rfl⟩ := Prod.mk.inj heq
    refine ⟨written.2, hwritten, ?_⟩
    unfold writeAll
    rw [Dict.get?_foldl_set, hlookup]
    rfl

theorem upsertLot_cases {row : String × LotColumns} (h : upsertLot parent state row = some state') :
    state' = (state.1.set row.1 ⟨parent, row.2, false⟩, state.2 + 1) ∨ state' = state := by
  unfold upsertLot at h
  dsimp only at h
  split at h
  · split at h
    · exact .inr (some.inj h).symm
    · split at h
      · cases h
      · exact .inl (some.inj h).symm
  · split at h
    · cases h
    · exact .inl (some.inj h).symm

theorem upsertLots_spec (h : rows.foldlM (upsertLot parent) state = some state') : state'.2 ≤ state.2 + rows.length ∧
    (state'.2 = state.2 + rows.length → state'.1 = writeAll parent state.1 rows) := by
  induction rows generalizing state with
  | nil =>
    obtain rfl : state = state' := some.inj h
    exact ⟨le_refl _, fun _ => rfl⟩
  | cons row rows ih =>
    rw [foldlM_cons] at h
    obtain ⟨middle, hmiddle, hrest⟩ := bind_eq_some_iff.mp h
    obtain ⟨hle, hall⟩ := ih hrest
    rw [length_cons]
    rcases upsertLot_cases hmiddle with rfl | rfl
    · refine ⟨by dsimp only at hle; omega, fun hcount => ?_⟩
      exact hall (by dsimp only; omega)
    · refine ⟨by omega, fun hcount => ?_⟩
      omega

theorem saveLots_eq {lots awards : List Item} {table' : LotTable}
    (h : saveLots t collation newIds table parent lots awards = some table') : table' = archiveOthers parent
      ((lotWrites t collation newIds table parent (mergeLots t lots awards)).map Prod.fst)
      (writeAll parent table (lotWrites t collation newIds table parent (mergeLots t lots awards))) := by
  unfold saveLots at h
  dsimp only at h
  generalize lotWrites t collation newIds table parent (mergeLots t lots awards) = rows at h ⊢
  obtain ⟨state, hstate, hchecked⟩ := bind_eq_some_iff.mp h
  obtain ⟨_, hall⟩ := upsertLots_spec hstate
  split at hchecked
  · cases hchecked
  rename_i hcount
  have hlength : state.2 = rows.length := by
    by_cases hrows : rows = []
    · subst hrows
      rw [← some.inj hstate]
      rfl
    · exact not_not.mp fun hne => hcount ⟨hrows, hne⟩
  rw [← some.inj hchecked, hall (by rw [hlength, zero_add])]

/-! ## Two lots under one id -/

/-- The generated ids are new. -/
structure Fresh (newIds : ℕ → String) (table : LotTable) (lots : List Item) : Prop where
  injective : Function.Injective newIds
  stored : ∀ i, table.get? (newIds i) = none
  own : ∀ i, ∀ row ∈ lots, idOf (firstValue row ["id"] .none) ≠ some (newIds i)

/-- The code of `a` finds no stored lot, and the id `a` carries is the stored lot of `b`'s code, or the id
`b` carries where that code finds none either. -/
def Clash (t : PyText) (existing : Dict String String) (a b : Item) : Prop :=
  existing.get? (lotCode t a) = none ∧ ∃ id, idOf (firstValue a ["id"] .none) = some id ∧
    (existing.get? (lotCode t b) = some id ∨
      (existing.get? (lotCode t b) = none ∧ idOf (firstValue b ["id"] .none) = some id))

def OwnIdsApart (t : PyText) (existing : Dict String String) (lots : List Item) : Prop :=
  lots.Pairwise fun a b => ¬Clash t existing a b ∧ ¬Clash t existing b a

theorem rowId_eq_iff (hstored : Stored t table parent) {lots : List Item} (hfresh : Fresh newIds table lots)
    {a b : Item} (ha : a ∈ lots) (hb : b ∈ lots) (hcodeA : HasCode t a) (hcodeB : HasCode t b)
    (hcodes : lotCode t a ≠ lotCode t b) {i j : ℕ} (hij : i ≠ j) :
    rowId t (existingLotIdsByKey t collation table parent) (newIds i) a =
        rowId t (existingLotIdsByKey t collation table parent) (newIds j) b ↔
      Clash t (existingLotIdsByKey t collation table parent) a b ∨
        Clash t (existingLotIdsByKey t collation table parent) b a := by
  have hinj := fun id => @Stored.existing_inj t collation table parent hstored _ _ id hcodeA.ne_empty hcodeB.ne_empty
  have hnew : ∀ n key, key ≠ "" → (existingLotIdsByKey t collation table parent).get? key ≠ some (newIds n) := by
    intro n key hkey hid
    obtain ⟨row, hrow, _⟩ := hstored.row_of_existing hkey hid
    rw [hfresh.stored n] at hrow
    cases hrow
  have hnewA := fun n => hnew n _ hcodeA.ne_empty
  have hnewB := fun n => hnew n _ hcodeB.ne_empty
  have hownA := fun n => hfresh.own n a ha
  have hownB := fun n => hfresh.own n b hb
  have hdiff : newIds i ≠ newIds j := fun heq => hij (hfresh.injective heq)
  unfold rowId Clash
  rw [hcodeA.lotMatchKey_eq, hcodeB.lotMatchKey_eq]
  generalize existingLotIdsByKey t collation table parent = existing at hinj hnewA hnewB ⊢
  cases hA : existing.get? (lotCode t a) with
  | some id =>
    cases hB : existing.get? (lotCode t b) with
    | some id' =>
      have hne : id ≠ id' := fun heq => hcodes (hinj id hA (heq ▸ hB))
      simpa using hne
    | none =>
      cases hownId : idOf (firstValue b ["id"] .none) with
      | some own => simp [eq_comm]
      | none =>
        have hne : id ≠ newIds j := fun heq => hnewA j (heq ▸ hA)
        simpa using hne
  | none =>
    cases hownA' : idOf (firstValue a ["id"] .none) with
    | some own =>
      cases hB : existing.get? (lotCode t b) with
      | some id' => simp [eq_comm]
      | none =>
        cases hownB' : idOf (firstValue b ["id"] .none) with
        | some own' => simp [eq_comm]
        | none =>
          have hne : own ≠ newIds j := fun heq => hownA j (heq ▸ hownA')
          simpa using hne
    | none =>
      cases hB : existing.get? (lotCode t b) with
      | some id' =>
        have hne : newIds i ≠ id' := fun heq => hnewB i (heq ▸ hB)
        simpa using hne
      | none =>
        cases hownB' : idOf (firstValue b ["id"] .none) with
        | some own' =>
          have hne : newIds i ≠ own' := fun heq => hownB i (heq ▸ hownB')
          simpa using hne
        | none => simpa using hdiff

def savedIds (t : PyText) (existing : Dict String String) (newIds : ℕ → String) (lots : List Item) : List String :=
  lots.zipIdx.map fun row => rowId t existing (newIds row.2) row.1

theorem getElem?_savedIds {existing : Dict String String} {lots : List Item} {i : ℕ} {row : Item}
    (h : lots[i]? = some row) : (savedIds t existing newIds lots)[i]? = some (rowId t existing (newIds i) row) := by
  unfold savedIds
  rw [getElem?_map, getElem?_zipIdx, h]
  simp

theorem length_savedIds (existing : Dict String String) (lots : List Item) :
    (savedIds t existing newIds lots).length = lots.length := by
  unfold savedIds
  rw [length_map, length_zipIdx]

theorem nodup_savedIds_iff (hstored : Stored t table parent) {lots : List Item} (hlots : CodesApart t lots)
    (hfresh : Fresh newIds table lots) : (savedIds t (existingLotIdsByKey t collation table parent) newIds lots).Nodup ↔
      OwnIdsApart t (existingLotIdsByKey t collation table parent) lots := by
  have hstep : ∀ i j (hi : i < lots.length) (hj : j < lots.length), i < j →
      (rowId t (existingLotIdsByKey t collation table parent) (newIds i) lots[i] =
          rowId t (existingLotIdsByKey t collation table parent) (newIds j) lots[j] ↔
        Clash t (existingLotIdsByKey t collation table parent) lots[i] lots[j] ∨
          Clash t (existingLotIdsByKey t collation table parent) lots[j] lots[i]) := by
    intro i j hi hj hij
    have hcodes : lotCode t lots[i] ≠ lotCode t lots[j] := by
      have hpair := pairwise_iff_getElem.mp hlots.nodup i j (by simpa using hi) (by simpa using hj) hij
      simpa using hpair
    exact rowId_eq_iff hstored hfresh (getElem_mem hi) (getElem_mem hj)
      (hlots.hasCode _ (getElem_mem hi)) (hlots.hasCode _ (getElem_mem hj)) hcodes (by omega)
  generalize existingLotIdsByKey t collation table parent = existing at hstep ⊢
  have hget : ∀ i (hi : i < (savedIds t existing newIds lots).length) (hi' : i < lots.length),
      (savedIds t existing newIds lots)[i] = rowId t existing (newIds i) lots[i] := by
    intro i hi hi'
    have hsome := @getElem?_savedIds t newIds existing lots i _ (getElem?_eq_getElem hi')
    rw [getElem?_eq_getElem hi] at hsome
    exact some.inj hsome
  unfold List.Nodup OwnIdsApart
  rw [pairwise_iff_getElem, pairwise_iff_getElem]
  constructor
  · intro hnodup i j hi hj hij
    have hne := hnodup i j (by rwa [length_savedIds]) (by rwa [length_savedIds]) hij
    rw [hget i _ hi, hget j _ hj] at hne
    exact not_or.mp (mt (hstep i j hi hj hij).mpr hne)
  · intro hapart i j hi hj hij
    have hi' : i < lots.length := by rwa [length_savedIds] at hi
    have hj' : j < lots.length := by rwa [length_savedIds] at hj
    rw [hget i hi hi', hget j hj hj']
    exact mt (hstep i j hi' hj' hij).mp (not_or.mpr (hapart i j hi' hj' hij))

/-! ## What a save leaves -/

/-- The lots of `rows` are saved under `ids`: one id each, the row's code and values, the id of an
active lot with the same code; every other active lot is archived. -/
structure LotsKept (t : PyText) (table table' : LotTable) (parent : String) (rows : List Item) (ids : List String) : Prop where
  count : ids.length = rows.length
  distinct : ids.Nodup
  saved : ∀ (i : ℕ) row id, rows[i]? = some row → ids[i]? = some id → table'.get? id = some ⟨parent, lotColumns t row i, false⟩
  only : ∀ id row, table'.get? id = some row → row.goiThauId = parent → row.archived = false → id ∈ ids
  keepsId : ∀ (i : ℕ) row id stored, rows[i]? = some row → table.get? id = some stored →
    stored.goiThauId = parent → stored.archived = false → stored.columns.maPhanLoNormalized = lotCode t row → ids[i]? = some id
  archived : ∀ id stored, table.get? id = some stored → stored.goiThauId = parent →
    stored.archived = false → id ∉ ids → table'.get? id = some { stored with archived := true }

section Saved

variable {lots awards : List Item} {table' : LotTable}

theorem map_fst_lotWrites : (lotWrites t collation newIds table parent (lots.map (withAwards t awards))).map Prod.fst =
    savedIds t (existingLotIdsByKey t collation table parent) newIds lots := by
  unfold lotWrites savedIds
  rw [map_map, zipIdx_map, map_map]
  apply map_congr_left
  intro row _
  exact rowId_withAwards _ _ awards row.1

theorem mem_lotWrites {id : String} {columns : LotColumns}
    (h : (id, columns) ∈ lotWrites t collation newIds table parent (lots.map (withAwards t awards))) :
    ∃ i row, lots[i]? = some row ∧ columns = lotColumns t (withAwards t awards row) i ∧
      (savedIds t (existingLotIdsByKey t collation table parent) newIds lots)[i]? = some id := by
  unfold lotWrites at h
  obtain ⟨⟨merged, i⟩, hmem, heq⟩ := mem_map.mp h
  obtain ⟨hid, rfl⟩ := Prod.mk.inj heq
  have hget : (lots.map (withAwards t awards))[i]? = some merged := mem_zipIdx_iff_getElem?.mp hmem
  rw [getElem?_map, map_eq_some_iff] at hget
  obtain ⟨row, hrow, rfl⟩ := hget
  refine ⟨i, row, hrow, rfl, ?_⟩
  rw [getElem?_savedIds hrow, ← hid]
  exact congrArg some (rowId_withAwards _ _ awards row).symm

section

variable (hlots : CodesApart t lots)
include hlots

section

variable (hawards : ∀ award ∈ awards, lotMatchKey t award ∈ lots.map (lotCode t))
include hawards

section

variable (hsaved : saveLots t collation newIds table parent lots awards = some table')
include hsaved

theorem get?_of_mem_savedIds {id : String}
    (hid : id ∈ savedIds t (existingLotIdsByKey t collation table parent) newIds lots) : ∃ i row, lots[i]? = some row ∧
      (savedIds t (existingLotIdsByKey t collation table parent) newIds lots)[i]? = some id ∧
      table'.get? id = some ⟨parent, lotColumns t (withAwards t awards row) i, false⟩ := by
  have htable := saveLots_eq hsaved
  rw [mergeLots_eq hlots hawards, map_fst_lotWrites] at htable
  have hwritten : id ∈ (lotWrites t collation newIds table parent (lots.map (withAwards t awards))).map Prod.fst := by
    rw [map_fst_lotWrites]
    exact hid
  obtain ⟨columns, hmem, hget⟩ := @get?_writeAll_of_mem table parent _ _ hwritten
  obtain ⟨i, row, hrow, rfl, hi⟩ := mem_lotWrites hmem
  refine ⟨i, row, hrow, hi, ?_⟩
  rw [htable, archiveOthers, Dict.get?_mapEntries, hget, map_some, if_neg]
  exact fun hothers => hothers.2.2 hid

theorem get?_of_not_mem_savedIds {id : String}
    (hid : id ∉ savedIds t (existingLotIdsByKey t collation table parent) newIds lots) :
    table'.get? id = (table.get? id).map fun row =>
      if row.goiThauId = parent ∧ row.archived = false then { row with archived := true } else row := by
  have htable := saveLots_eq hsaved
  rw [mergeLots_eq hlots hawards, map_fst_lotWrites] at htable
  rw [htable, archiveOthers, Dict.get?_mapEntries, get?_writeAll_of_not_mem (by rw [map_fst_lotWrites]; exact hid)]
  simp only [hid, not_false_eq_true, and_true]

theorem active_iff_mem_savedIds {id : String} :
    (∃ row, table'.get? id = some row ∧ row.goiThauId = parent ∧ row.archived = false) ↔
      id ∈ savedIds t (existingLotIdsByKey t collation table parent) newIds lots := by
  constructor
  · rintro ⟨row, hrow, hparent, hactive⟩
    by_contra hid
    rw [get?_of_not_mem_savedIds hlots hawards hsaved hid, map_eq_some_iff] at hrow
    obtain ⟨stored, _, rfl⟩ := hrow
    split at hparent
    · rename_i hothers
      rw [if_pos hothers] at hactive
      cases hactive
    · rename_i hothers
      rw [if_neg hothers] at hactive
      exact hothers ⟨hparent, hactive⟩
  · intro hid
    obtain ⟨i, row, _, _, hget⟩ := get?_of_mem_savedIds hlots hawards hsaved hid
    exact ⟨_, hget, rfl, rfl⟩

end

end

end

end Saved

/-- A save that returns keeps every lot exactly when no lot with a new code carries an id another lot is saved
under. -/
theorem lots_kept_iff (t : PyText) (collation : Collation) (newIds : ℕ → String) (table table' : LotTable)
    (parent : String) (lots awards : List Item) (hstored : Stored t table parent)
    (hlots : CodesApart t lots) (hawards : ∀ award ∈ awards, lotMatchKey t award ∈ lots.map (lotCode t))
    (hfresh : Fresh newIds table lots) (hsaved : saveLots t collation newIds table parent lots awards = some table') :
    (∃ ids, LotsKept t table table' parent (lots.map (withAwards t awards)) ids) ↔
      OwnIdsApart t (existingLotIdsByKey t collation table parent) lots := by
  rw [← nodup_savedIds_iff hstored hlots hfresh]
  constructor
  · rintro ⟨ids, hkept⟩
    have hcount : ids.length = lots.length := by rw [hkept.count, length_map]
    have hsubset : ids ⊆ savedIds t (existingLotIdsByKey t collation table parent) newIds lots := by
      intro id hid
      obtain ⟨i, hi⟩ := mem_iff_getElem?.mp hid
      obtain ⟨hlt, _⟩ := List.getElem?_eq_some_iff.mp hi
      have hlength : i < (lots.map (withAwards t awards)).length := by
        rw [length_map]
        omega
      have hrow := getElem?_eq_getElem hlength
      exact (active_iff_mem_savedIds hlots hawards hsaved).mp ⟨_, hkept.saved i _ id hrow hi, rfl, rfl⟩
    have hperm := subperm_of_subset hkept.distinct hsubset
    have hlength := @length_savedIds t newIds (existingLotIdsByKey t collation table parent) lots
    exact (hperm.perm_of_length_le (by omega)).nodup_iff.mp hkept.distinct
  · intro hnodup
    refine ⟨savedIds t (existingLotIdsByKey t collation table parent) newIds lots, ?_, hnodup, ?_, ?_, ?_, ?_⟩
    · rw [length_savedIds, length_map]
    · intro i merged id hmerged hid
      obtain ⟨j, row, hrow, hj, hget⟩ :=
        get?_of_mem_savedIds hlots hawards hsaved (mem_of_getElem? hid)
      have hji : j = i := by
        obtain ⟨hlt, hidj⟩ := List.getElem?_eq_some_iff.mp hj
        obtain ⟨hlt', hidi⟩ := List.getElem?_eq_some_iff.mp hid
        exact (hnodup.getElem_inj_iff).mp (hidj.trans hidi.symm)
      subst hji
      rw [getElem?_map, hrow, map_some] at hmerged
      rw [hget, some.inj hmerged]
    · intro id row hrow hparent hactive
      exact (active_iff_mem_savedIds hlots hawards hsaved).mp ⟨row, hrow, hparent, hactive⟩
    · intro i merged id stored hmerged hget hparent hactive hcode
      rw [getElem?_map, map_eq_some_iff] at hmerged
      obtain ⟨row, hrow, rfl⟩ := hmerged
      rw [lotCode_withAwards] at hcode
      have hhas := hlots.hasCode row (mem_of_getElem? hrow)
      have hexisting := @Stored.existing_of_active t collation table parent hstored _ _ hget hparent hactive
        (hcode ▸ hhas.ne_empty)
      rw [getElem?_savedIds hrow, rowId, hhas.lotMatchKey_eq, ← hcode, hexisting]
      rfl
    · intro id stored hget hparent hactive hid
      rw [get?_of_not_mem_savedIds hlots hawards hsaved hid, hget, map_some, if_pos ⟨hparent, hactive⟩]

def sampleIds (n : ℕ) : String := .ofList (List.replicate (n + 10) 'n')

/-- A package with the one lot `a`. -/
def sampleTable : LotTable :=
  .ofList [("id1", ⟨"p", ⟨.str "a", "a", .str "", 0, 0, .str "", .none, 0, .str "", .str "", 0⟩, false⟩)]

def renamedLot : Item := .ofList [("id", .str "id1"), ("maPhanLo", .str "b")]

def addedLot : Item := .ofList [("maPhanLo", .str "a")]

theorem sampleTable_get? {id : String} {row : LotRow} (h : sampleTable.get? id = some row) :
    id = "id1" ∧ row = ⟨"p", ⟨.str "a", "a", .str "", 0, 0, .str "", .none, 0, .str "", .str "", 0⟩, false⟩ := by
  have hmem := (mem_entries_iff _ _ _).mpr h
  have hentries : sampleTable.entries =
      [("id1", ⟨"p", ⟨.str "a", "a", .str "", 0, 0, .str "", .none, 0, .str "", .str "", 0⟩, false⟩)] := rfl
  rw [hentries, mem_singleton] at hmem
  exact Prod.mk.inj hmem

theorem sampleTable_stored : Stored .plain sampleTable "p" where
  id id row h _ := by
    obtain ⟨rfl, _⟩ := sampleTable_get? h
    decide
  code id row h _ := by
    obtain ⟨_, rfl⟩ := sampleTable_get? h
    decide
  active id row id' row' h h' _ _ _ _ _ _ := (sampleTable_get? h).1.trans (sampleTable_get? h').1.symm

theorem sampleIds_injective : Function.Injective sampleIds := by
  intro m n h
  have hlength := congrArg (fun text : String => text.toList.length) h
  simp only [sampleIds, String.toList_ofList, length_replicate] at hlength
  omega

theorem sampleIds_ne {id : String} (h : id.toList.length < 10) (n : ℕ) : id ≠ sampleIds n := by
  rintro rfl
  simp only [sampleIds, String.toList_ofList, length_replicate] at h
  omega

def otherLot : Item := .ofList [("maPhanLo", .str "c")]

def lotAward : Item := .ofList [("maPhanLo", .str "c"), ("giaTrungThau", .int 7)]

theorem sample_fresh : Fresh sampleIds sampleTable [renamedLot, otherLot] where
  injective := sampleIds_injective
  stored n := by
    cases hget : sampleTable.get? (sampleIds n) with
    | none => rfl
    | some row => exact absurd (sampleTable_get? hget).1.symm (sampleIds_ne (by decide) n)
  own n row hrow hid := by
    have hown : ∀ row ∈ [renamedLot, otherLot], ∀ id ∈ idOf (firstValue row ["id"] .none), id = "id1" := by decide
    exact sampleIds_ne (by decide) n (hown row hrow _ hid).symm

/-- A lot gets another code, and one is added and awarded. -/
theorem lots_kept_iff_sample : ∃ table' ids,
    saveLots .plain .codePoints sampleIds sampleTable "p" [renamedLot, otherLot] [lotAward] = some table' ∧
      LotsKept .plain sampleTable table' "p" ([renamedLot, otherLot].map (withAwards .plain [lotAward])) ids := by
  have hsaved : (saveLots .plain .codePoints sampleIds sampleTable "p" [renamedLot, otherLot] [lotAward]).isSome := by decide
  obtain ⟨table', htable⟩ := isSome_iff_exists.mp hsaved
  have hcodes : CodesApart .plain [renamedLot, otherLot] := ⟨by
    intro row hrow
    rcases mem_pair.mp hrow with rfl | rfl <;> exact ⟨.inl (by decide), by decide⟩, by decide⟩
  have hiff := lots_kept_iff .plain .codePoints sampleIds sampleTable table' "p" [renamedLot, otherLot] [lotAward]
    sampleTable_stored hcodes (by decide) sample_fresh htable
  have hids : idOf (firstValue otherLot ["id"] .none) = none ∧
      (existingLotIdsByKey .plain .codePoints sampleTable "p").get? (lotCode .plain otherLot) = none := by decide
  obtain ⟨ids, hkept⟩ := hiff.mpr (pairwise_pair.mpr ⟨by simp [Clash, hids], by simp [Clash, hids]⟩)
  exact ⟨table', ids, htable, hkept⟩

/-- Both rows are saved under the one id: the renamed lot is lost. -/
theorem renamed_lot_lost : Stored .plain sampleTable "p" ∧ CodesApart .plain [renamedLot, addedLot] ∧
    ∃ table', saveLots .plain .codePoints sampleIds sampleTable "p" [renamedLot, addedLot] [] = some table' ∧
      table'.keys = ["id1"] ∧ ¬∃ ids, LotsKept .plain sampleTable table' "p" [renamedLot, addedLot] ids := by
  have hcodes : CodesApart .plain [renamedLot, addedLot] := ⟨by
    intro row hrow
    rcases mem_pair.mp hrow with rfl | rfl
    · exact ⟨.inl (by decide), by decide⟩
    · exact ⟨.inl (by decide), by decide⟩, by decide⟩
  have hkeys : (saveLots .plain .codePoints sampleIds sampleTable "p" [renamedLot, addedLot] []).map Dict.keys =
      some ["id1"] := by decide
  obtain ⟨table', htable, hkeys⟩ := map_eq_some_iff.mp hkeys
  refine ⟨sampleTable_stored, hcodes, table', htable, hkeys, ?_⟩
  rintro ⟨ids, hkept⟩
  -- both ids are keys of the table
  have hid : ∀ (i : ℕ) row id, [renamedLot, addedLot][i]? = some row → ids[i]? = some id → id = "id1" := by
    intro i row id hrow hi
    have hmem := (mem_keys_iff table' id).mpr ⟨_, hkept.saved i row id hrow hi⟩
    rw [hkeys, mem_singleton] at hmem
    exact hmem
  have hcount : ids.length = 2 := hkept.count
  obtain ⟨first, second, rfl⟩ := length_eq_two.mp hcount
  have hfirst := hid 0 renamedLot first rfl rfl
  have hsecond := hid 1 addedLot second rfl rfl
  have hdistinct := hkept.distinct
  rw [hfirst, hsecond] at hdistinct
  exact absurd hdistinct (by decide)

end Bidding.Packages
