import Bidding.Sync.PackageRow

/-!
# The lock of issued packages

Once a package has been issued, `packageLockedFields` keep their text, as long as no update restores a cancelled package to
preparation and no update of a package with lots writes a price that is not the total of the lots it carries.
-/

namespace Bidding

open Foundations List
open Option hiding or_self

/-! ## What the checks change in an item -/

variable (item : PackageItem) {key key' : String} {column : Column} {value written : Scalar}

theorem PackageItem.get?_set_of_ne (value : Scalar)
    (h : key' ≠ key) : (item.set key value).fields.get? key' = item.fields.get? key' :=
  Dict.get?_set_of_ne _ _ h

@[simp] theorem PackageItem.get?_set_self (key : String) (value : Scalar) :
    (item.set key value).fields.get? key = some value := Dict.get?_set_self _ _ _

@[simp] theorem PackageItem.lots_set (key : String) (value : Scalar) : (item.set key value).lots = item.lots := rfl

theorem PackageItem.get_set_of_ne (value : Scalar) (h : key' ≠ key) : (item.set key value).get key' = item.get key' := by
  unfold PackageItem.get Fields.getValue
  rw [item.get?_set_of_ne value h]

theorem PackageItem.lotted_set (value : Scalar) (h : "phanLo" ≠ key) : (item.set key value).lotted = item.lotted := by
  unfold PackageItem.lotted
  rw [item.get_set_of_ne value h]

def checkedKeys : List String := ["giaGoiThau", "trangThai", "giaTrungThau", "nhaThauTrungThauId"]

theorem get?_validatePackageItem_of_not_mem (t : PyText) (item : PackageItem) (h : key ∉ checkedKeys) :
    (validatePackageItem t item).1.fields.get? key = item.fields.get? key := by
  simp only [checkedKeys, mem_cons, not_mem_nil, or_false, not_or] at h
  obtain ⟨hprice, hstatus, haward, hwinner⟩ := h
  have hrequired : (requireFieldsForGoiThau item).1.fields.get? key = item.fields.get? key := by
    unfold requireFieldsForGoiThau
    cases deriveLottedPackagePrice item with
    | none => rfl
    | some total => exact item.get?_set_of_ne _ hprice
  have hnormal : ∀ item, (normalizePackageStatus item).1.fields.get? key = item.fields.get? key :=
    fun item => item.get?_set_of_ne _ hstatus
  have hlots : ∀ item, (packageLots t item).1.fields.get? key = item.fields.get? key := by
    intro item
    unfold packageLots
    split
    · split
      · rfl
      · exact item.get?_set_of_ne _ hprice
    · rfl
  have hawarded : ∀ item, (packageAward t item).1.fields.get? key = item.fields.get? key := by
    intro item
    unfold packageAward
    split
    · simp only
      split
      · rfl
      · rw [PackageItem.get?_set_of_ne _ _ hwinner, PackageItem.get?_set_of_ne _ _ haward]
    · rfl
  unfold validatePackageItem validatePackageStatusAndLots
  simp only
  rw [hawarded, hlots, hnormal, hrequired]

theorem get?_price_validatePackageItem (t : PyText) (item : PackageItem) :
    (validatePackageItem t item).1.fields.get? "giaGoiThau" = match deriveLottedPackagePrice item with
      | some total => some (.str (toString (total : Int)))
      | none => item.fields.get? "giaGoiThau" := by
  have hrequired : (requireFieldsForGoiThau item).1.fields.get? "giaGoiThau" = match deriveLottedPackagePrice item with
      | some total => some (.str (toString (total : Int)))
      | none => item.fields.get? "giaGoiThau" := by
    unfold requireFieldsForGoiThau
    cases deriveLottedPackagePrice item with
    | none => rfl
    | some total => exact PackageItem.get?_set_self ..
  have hderive : ∀ value, deriveLottedPackagePrice (item.set "giaGoiThau" value) = deriveLottedPackagePrice item := by
    intro value
    unfold deriveLottedPackagePrice
    rw [item.lotted_set value (by decide), PackageItem.lots_set]
  have hderiveRequired : deriveLottedPackagePrice (requireFieldsForGoiThau item).1 = deriveLottedPackagePrice item := by
    unfold requireFieldsForGoiThau
    cases h : deriveLottedPackagePrice item with
    | none => exact h
    | some total => rw [hderive, h]
  have hnormal : ∀ item : PackageItem,
      (normalizePackageStatus item).1.fields.get? "giaGoiThau" = item.fields.get? "giaGoiThau" ∧
        deriveLottedPackagePrice (normalizePackageStatus item).1 = deriveLottedPackagePrice item := by
    intro item
    refine ⟨item.get?_set_of_ne _ (by decide), ?_⟩
    unfold normalizePackageStatus deriveLottedPackagePrice
    simp only [item.lotted_set _ (show "phanLo" ≠ "trangThai" by decide), PackageItem.lots_set]
  have hlots : ∀ item : PackageItem, (packageLots t item).1.fields.get? "giaGoiThau" = match deriveLottedPackagePrice item with
      | some total => some (.str (toString (total : Int)))
      | none => item.fields.get? "giaGoiThau" := by
    intro item
    unfold packageLots deriveLottedPackagePrice
    by_cases hlotted : item.lotted = true
    · by_cases hempty : item.lots = []
      · simp [hlotted, hempty]
      · simp [hlotted, hempty]
    · simp [hlotted]
  have hawarded : ∀ item : PackageItem, (packageAward t item).1.fields.get? "giaGoiThau" = item.fields.get? "giaGoiThau" := by
    intro item
    unfold packageAward
    split
    · simp only
      split
      · rfl
      · rw [PackageItem.get?_set_of_ne _ _ (by decide), PackageItem.get?_set_of_ne _ _ (by decide)]
    · rfl
  unfold validatePackageItem validatePackageStatusAndLots
  simp only
  rw [hawarded, hlots, (hnormal _).2, (hnormal _).1, hderiveRequired, hrequired]
  cases deriveLottedPackagePrice item <;> rfl

@[simp] theorem fieldText_cleanId (value : Scalar) : (cleanId value).fieldText = value.fieldText := by
  unfold cleanId
  split
  · rename_i hblank
    cases value with
    | none => rfl
    | str s =>
      have hs : s = "" := by simpa [Scalar.blank] using hblank
      subst hs
      rfl
    | bool b => simp [Scalar.blank] at hblank
    | int n => simp [Scalar.blank] at hblank
    | float t => simp [Scalar.blank] at hblank
  · rename_i hblank
    have hne : value ≠ .none := by
      rintro rfl
      exact hblank rfl
    rw [Scalar.fieldText_of_ne hne]
    exact pyStrip_pyStrip _

@[simp] theorem fieldText_stripText (value : Scalar) : (stripText value).fieldText = value.fieldText := by
  cases value with
  | str s =>
    unfold stripText
    simp only
    split
    · rfl
    · rfl
    · exact Scalar.fieldText_strip s
  | _ => rfl

theorem fieldText_serializeColumn (hmoney : column.kind ≠ .money) (hstatus : column.kind ≠ .status)
    (h : serializeColumn column value = some written) : written.fieldText = value.fieldText ∨
      ∃ text, column.upperDefault = some text ∧ written = .str text := by
  unfold serializeColumn at h
  simp only [if_neg hmoney, if_neg hstatus] at h
  have htext : (stripText (if column.kind = .id then cleanId value else value)).fieldText = value.fieldText := by
    split <;> simp
  generalize stripText (if column.kind = .id then cleanId value else value) = stripped at h htext
  by_cases hnone : stripped = .none
  · subst hnone
    simp only [if_true] at h
    cases hd : column.upperDefault with
    | none =>
      simp only [hd, map_none, getD_none] at h
      split at h
      · cases h
      · cases h
        exact .inl htext
    | some text =>
      simp only [hd, map_some, getD_some, reduceCtorEq, false_and, if_false, some.injEq] at h
      exact .inr ⟨text, rfl, h.symm⟩
  · simp only [hnone, if_false, false_and, some.injEq] at h
    exact .inl (by rw [← h, htext])

theorem not_accepts_upperDefault : ∀ column ∈ goiThauColumns, column.kind ≠ .status →
    column.upperDefault.all (fun text => !column.accepts (.str text)) = true := by
  decide

theorem parseVndAmount_stripText (value : Scalar) : parseVndAmount (stripText value) = parseVndAmount value := by
  cases value with
  | str s =>
    unfold stripText
    simp only
    split
    · rfl
    · rfl
    · exact amountOfText_pyStrip s
  | _ => rfl

theorem serializeColumn_money (hmoney : column.kind = .money) (hnull : column.notNull = true)
    (hdefault : column.upperDefault = none) (h : serializeColumn column value = some written) :
    ∃ n, parseVndAmount value = some n ∧ written = .int n := by
  unfold serializeColumn at h
  simp only [hmoney, reduceCtorEq, if_false, if_true, parseVndAmount_stripText, hnull, hdefault,
    and_true, map_none, getD_none] at h
  cases hparse : parseVndAmount value with
  | none => simp [hparse, amountScalar] at h
  | some n =>
    refine ⟨n, rfl, ?_⟩
    simp only [hparse, amountScalar, reduceCtorEq, if_false, some.injEq] at h
    exact h.symm

variable (status : PackageStatus) {a b : PackageStatus}

theorem pyStrip_label : pyStrip status.label = status.label := by cases status <;> decide

theorem pyStrip_code : pyStrip status.code = status.code := by cases status <;> decide

theorem statusAlias_label : statusAlias status.label = status.label := by cases status <;> decide

theorem label_ne_empty : status.label ≠ "" := by cases status <;> decide

def statusColumn : Column :=
  ⟨"trang_thai", .status, true, some "PREPARING", some (PackageStatus.all.map PackageStatus.code), false⟩

theorem statusColumn_mem : statusColumn ∈ goiThauColumns := by decide

theorem PackageRow.exists_status (row : PackageRow) :
    ∃ status, row.columns.getValue "trang_thai" = .str (PackageStatus.code status) ∧
      row.status = some status := by
  have haccepted := row.accepted statusColumn statusColumn_mem
  unfold Column.accepts statusColumn at haccepted
  cases hvalue : row.columns.getValue "trang_thai" with
  | str s =>
    simp only [hvalue, all_some, Bool.and_eq_true, decide_eq_true_eq] at haccepted
    obtain ⟨status, -, rfl⟩ := mem_map.mp haccepted.1.2
    refine ⟨status, rfl, ?_⟩
    unfold PackageRow.status
    rw [hvalue]
    exact PackageStatus.ofCode?_code status
  | none => simp [hvalue] at haccepted
  | bool b => simp [hvalue] at haccepted
  | int n => simp [hvalue] at haccepted
  | float t => simp [hvalue] at haccepted

theorem statusLabel_code : statusLabel (.str status.code) = .str status.label := by
  unfold statusLabel
  simp [Scalar.text, pyStrip_code]

theorem lockStatus_of_status {row : PackageRow} {status : PackageStatus}
    (h : row.columns.getValue "trang_thai" = .str status.code) : lockStatus row.columns = status.label := by
  unfold lockStatus
  rw [h, statusLabel_code]
  simp [Scalar.truthy, Scalar.text, label_ne_empty, pyStrip_label, statusAlias_label]

theorem label_injective (h : a.label = b.label) : a = b := by
  have hlabel := PackageStatus.ofLabel?_label a
  rw [h, PackageStatus.ofLabel?_label] at hlabel
  exact (some.inj hlabel).symm

theorem code_injective (h : a.code = b.code) : a = b := by
  have hcode := PackageStatus.ofCode?_code a
  rw [h, PackageStatus.ofCode?_code] at hcode
  exact (some.inj hcode).symm

theorem requestedStatus_congr {item item' : PackageItem} (h : item.get "trangThai" = item'.get "trangThai") :
    requestedStatus item = requestedStatus item' := by
  unfold requestedStatus
  rw [h]

theorem requestedStatus_requireFields (item : PackageItem) :
    requestedStatus (requireFieldsForGoiThau item).1 = requestedStatus item := by
  refine requestedStatus_congr ?_
  unfold requireFieldsForGoiThau
  cases deriveLottedPackagePrice item with
  | none => rfl
  | some total => exact item.get_set_of_ne _ (by decide)

theorem get?_status_validatePackageItem (t : PyText) (item : PackageItem) :
    (validatePackageItem t item).1.fields.get? "trangThai" = some (.str (requestedStatus item)) := by
  have hlots : ∀ item : PackageItem, (packageLots t item).1.fields.get? "trangThai" = item.fields.get? "trangThai" := by
    intro item
    unfold packageLots
    split
    · split
      · rfl
      · exact item.get?_set_of_ne _ (by decide)
    · rfl
  have hawarded : ∀ item : PackageItem, (packageAward t item).1.fields.get? "trangThai" = item.fields.get? "trangThai" := by
    intro item
    unfold packageAward
    split
    · simp only
      split
      · rfl
      · rw [PackageItem.get?_set_of_ne _ _ (by decide), PackageItem.get?_set_of_ne _ _ (by decide)]
    · rfl
  unfold validatePackageItem validatePackageStatusAndLots
  simp only
  rw [hawarded, hlots]
  unfold normalizePackageStatus
  simp only [PackageItem.get?_set_self, requestedStatus_requireFields]

theorem exists_requestedStatus {t : PyText} {item : PackageItem} (h : (validatePackageItem t item).2 = []) :
    ∃ status : PackageStatus, requestedStatus item = status.label := by
  unfold validatePackageItem at h
  simp only [append_eq_nil_iff] at h
  have hnormal := h.1.1.2
  unfold normalizePackageStatus at hnormal
  simp only [requestedStatus_requireFields] at hnormal
  cases hlabel : PackageStatus.ofLabel? (requestedStatus item) with
  | none => simp [hlabel] at hnormal
  | some status => exact ⟨status, (PackageStatus.label_of_ofLabel? hlabel).symm⟩

theorem transition_allowed {previous : Scalar} {item : PackageItem} {old new : PackageStatus}
    (hprevious : previous = .str old.code) (hnew : requestedStatus item = new.label)
    (h : validatePackageStatusTransition previous item false = []) : new = old ∨ new ∈ old.transitions ∨ old = .preparing := by
  have hold : statusAlias (statusLabel previous).orEmptyText = old.label := by
    rw [hprevious, statusLabel_code]
    simp [Scalar.orEmptyText, Scalar.truthy, Scalar.text, label_ne_empty, pyStrip_label, statusAlias_label]
  unfold validatePackageStatusTransition at h
  simp only [hold, hnew, label_ne_empty, false_or, Bool.false_eq_true, false_and, if_false] at h
  by_cases hsame : old.label = new.label
  · exact .inl (label_injective hsame.symm)
  by_cases hpreparing : old.label = PackageStatus.preparing.label
  · exact .inr (.inr (label_injective hpreparing))
  simp only [if_neg hsame, hpreparing, false_and, and_false, if_false, PackageStatus.ofLabel?_label, elim_some] at h
  split at h
  · rename_i hmem
    obtain ⟨status, hstatus, heq⟩ := mem_map.mp hmem
    rw [← label_injective heq]
    exact .inr (.inl hstatus)
  · cases h

theorem preparing_mem_transitions {old : PackageStatus} (h : PackageStatus.preparing ∈ old.transitions) : old = .cancelled := by
  cases old <;> revert h <;> decide

theorem get?_canonicalizeFields {keyOf : String → String} {columns : List Column}
    {fields : Fields}
    (h : (canonicalizeFields keyOf columns fields).get? key = some value) :
    fields.get? key = some value ∨
      ∃ column ∈ columns, keyOf column.name = key ∧ fields.get? column.name = some value := by
  revert key value
  refine foldl_inv _ (fun acc : Fields => ∀ {key : String} {value : Scalar},
    acc.get? key = some value → fields.get? key = some value ∨
      ∃ column ∈ columns, keyOf column.name = key ∧ fields.get? column.name = some value) _
    (fun acc column hmem hacc key value hget => ?_) fun hget => ?_
  · split at hget
    · rename_i found hfound
      rw [Dict.get?_set] at hget
      split at hget
      · rename_i heq
        cases hget
        exact .inl (heq ▸ hfound)
      · exact hacc hget
    · split at hget
      · rename_i found hfound
        rw [Dict.get?_set] at hget
        split at hget
        · rename_i heq
          cases hget
          exact .inr ⟨column, hmem, heq.symm, hfound⟩
        · exact hacc hget
      · exact hacc hget
  · rw [Dict.get?_filterKeys] at hget
    split at hget
    · exact .inl hget
    · cases hget

theorem goiThauKey_trangThai : ∀ column ∈ goiThauColumns,
    goiThauKey column.name = "trangThai" → column.name = "trang_thai" := by
  decide

theorem get?_trangThai_canonicalizePackage {t : PyText} {raw : PackageItem}
    (h : (canonicalizePackage t raw).fields.get? "trangThai" = some value) :
    raw.fields.get? "trangThai" = some value ∨ raw.fields.get? "trang_thai" = some value := by
  have hcanonical : (canonicalizePackage t raw).fields.get? "trangThai" =
      (canonicalizeFields goiThauKey goiThauColumns raw.fields).get? "trangThai" := by
    unfold canonicalizePackage
    simp only
    split <;> split <;> simp [Dict.get?_set]
  rw [hcanonical] at h
  rcases get?_canonicalizeFields h with hraw | ⟨column, hmem, hkey, hraw⟩
  · exact .inl hraw
  · rw [goiThauKey_trangThai column hmem hkey] at hraw
    exact .inr hraw

theorem find?_statusColumn : ∀ key ∈ ["trangThai", "trang_thai"],
    goiThauColumns.find? (fun column => column.name = key || goiThauKey column.name = key) = some statusColumn := by
  decide

theorem status_ne_none {t : PyText} {raw : PackageItem} (hshape : validatePackageShape raw = [])
    (h : (canonicalizePackage t raw).fields.get? "trangThai" = some value) : value ≠ .none := by
  rintro rfl
  have hrefused : ∀ key ∈ ["trangThai", "trang_thai"], raw.fields.get? key ≠ some .none := by
    intro key hkey hget
    have hmem := (Dict.mem_entries_iff _ _ _).mpr hget
    have hnil : ∀ entry ∈ raw.fields.entries, _ = none := filterMap_eq_nil_iff.mp hshape
    have hnone := hnil _ hmem
    simp only [find?_statusColumn key hkey] at hnone
    simp [shapeError, statusColumn] at hnone
  rcases get?_trangThai_canonicalizePackage h with hraw | hraw
  · exact hrefused _ (by simp) hraw
  · exact hrefused _ (by simp) hraw

/-! ## One update of an issued package -/

theorem text_of_not_truthy (h : value.truthy = false) : pyStrip value.text ∈ ["None", "False", "0", "0.0", "-0.0", ""] := by
  cases value with
  | none => decide
  | bool b =>
    cases b with
    | false => decide
    | true => cases h
  | int n =>
    have hn : n = 0 := by simpa [Scalar.truthy] using h
    subst hn
    decide
  | float t =>
    have ht : t = "0.0" ∨ t = "-0.0" := by
      by_contra hne
      rw [not_or] at hne
      simp [Scalar.truthy, hne.1, hne.2] at h
    rcases ht with rfl | rfl <;> decide
  | str s =>
    have hs : s = "" := by simpa [Scalar.truthy] using h
    subst hs
    decide

theorem requestedStatus_of_text {item : PackageItem} {text : String} (h : pyStrip (item.get "trangThai").text = text)
    (htext : text ∉ ["None", "False", "0", "0.0", "-0.0", ""]) : requestedStatus item = statusAlias text := by
  unfold requestedStatus
  have htruthy : (item.get "trangThai").truthy = true := by
    by_contra hne
    exact htext (h ▸ text_of_not_truthy (by simpa using hne))
  rw [if_pos htruthy, h]

theorem stripText_ne_none (h : value ≠ .none) : stripText value ≠ .none := by
  cases value with
  | str s =>
    unfold stripText
    simp only
    split <;> simp
  | none => exact absurd rfl h
  | _ => simp [stripText]

theorem pyStrip_text_stripText (value : Scalar) : pyStrip (stripText value).text = pyStrip value.text := by
  by_cases h : value = .none
  · subst h
    rfl
  · rw [← Scalar.fieldText_of_ne h, ← fieldText_stripText, Scalar.fieldText_of_ne (stripText_ne_none h)]

theorem text_of_statusCode (hne : value ≠ .none)
    (h : statusCode value = .str PackageStatus.preparing.code) : pyStrip value.text = PackageStatus.preparing.code ∨
      pyStrip value.text = PackageStatus.preparing.label := by
  unfold statusCode at h
  split at h
  · exact absurd rfl hne
  simp only at h
  split at h
  · exact .inl (by simpa using h)
  split at h
  · simp only [Scalar.str.injEq] at h
    exact absurd (code_injective h) (by decide)
  split at h
  · rename_i status hstatus
    simp only [Scalar.str.injEq] at h
    rw [code_injective h] at hstatus
    exact .inr (PackageStatus.label_of_ofLabel? hstatus).symm
  · exact .inl (by simpa using h)

def RestoresPreparing (t : PyText) (row : PackageRow) (raw : PackageItem) : Prop :=
  row.status = some .cancelled ∧
    pyStrip ((canonicalizePackage t raw).get "trangThai").text = PackageStatus.preparing.label

def PriceAgrees (t : PyText) (raw : PackageItem) : Prop :=
  ∀ total amount, deriveLottedPackagePrice (canonicalizePackage t raw) = some total →
    parseVndAmount ((canonicalizePackage t raw).get "giaGoiThau") = some amount → amount = total

/-- What an update must respect for the lock to hold. -/
structure RespectsLock (t : PyText) (row : PackageRow) (raw : PackageItem) : Prop where
  status : ¬RestoresPreparing t row raw
  price : PriceAgrees t raw

section Update

variable {t : PyText} {refused : PackageRow → PackageItem → Bool} {row row' : PackageRow}
  {raw : PackageItem} {old : PackageStatus} {field : String × String}

theorem status_updatePackage (h : updatePackage t refused row raw = some row')
    (hold : row.columns.getValue "trang_thai" = .str old.code) (hne : old ≠ .preparing) (hkeep : RespectsLock t row raw) :
    ∃ new : PackageStatus, row'.columns.getValue "trang_thai" = .str new.code ∧
      new ≠ .preparing := by
  obtain ⟨hshape, herrors, hwritten⟩ := updatePackage_eq_some h
  obtain ⟨new, hnew, -⟩ := row'.exists_status
  refine ⟨new, hnew, ?_⟩
  rintro rfl
  rw [hwritten, show "trang_thai" = statusColumn.name from rfl, getValue_writtenColumns row _ statusColumn_mem] at hnew
  have hkey : goiThauKey statusColumn.name = "trangThai" := by decide
  rw [hkey] at hnew
  cases hvalue : (canonicalizePackage t raw).fields.get? "trangThai" with
  | none =>
    rw [hvalue] at hnew
    have hcode : (Scalar.str old.code) = .str PackageStatus.preparing.code := hold.symm.trans hnew
    exact hne (code_injective (by simpa using hcode))
  | some value =>
    have hvalue_ne : value ≠ .none := status_ne_none hshape hvalue
    have hserialized : serializeColumn statusColumn value = some (statusCode (stripText value)) := by
      have hstripped := stripText_ne_none hvalue_ne
      simp [serializeColumn, statusColumn, hstripped]
    rw [hvalue, bind_some, hserialized] at hnew
    have hget : (canonicalizePackage t raw).get "trangThai" = value := by
      unfold PackageItem.get Fields.getValue
      rw [hvalue]
      rfl
    have htext := text_of_statusCode (stripText_ne_none hvalue_ne) hnew
    rw [pyStrip_text_stripText, ← hget] at htext
    -- the errors are those of the item, of the status change and of the lock
    unfold packageErrors at herrors
    simp only [append_eq_nil_iff] at herrors
    obtain ⟨⟨hitem, htransition⟩, -⟩ := herrors
    obtain ⟨status, hstatus⟩ := exists_requestedStatus hitem
    rcases htext with htext | htext
    · -- the code itself is no label
      have hrequest := requestedStatus_of_text htext (by decide)
      rw [hstatus] at hrequest
      have hlabel := PackageStatus.ofLabel?_label status
      have hnone : PackageStatus.ofLabel? (statusAlias PackageStatus.preparing.code) = none := by decide
      rw [hrequest, hnone] at hlabel
      cases hlabel
    · have hrequest := requestedStatus_of_text htext (by decide)
      rw [statusAlias_label] at hrequest
      have hvalidated : requestedStatus
          (validatePackageItem t (canonicalizePackage t raw)).1 = PackageStatus.preparing.label := by
        have hset : (validatePackageItem t (canonicalizePackage t raw)).1.get "trangThai" =
            .str PackageStatus.preparing.label := by
          unfold PackageItem.get Fields.getValue
          rw [get?_status_validatePackageItem, hrequest]
          rfl
        have hstripped : pyStrip ((validatePackageItem t (canonicalizePackage t raw)).1.get
            "trangThai").text = PackageStatus.preparing.label := by
          rw [hset]
          exact pyStrip_label _
        rw [requestedStatus_of_text hstripped (by decide), statusAlias_label]
      rcases transition_allowed hold hvalidated htransition with heq | hmem | heq
      · exact hne heq.symm
      · refine hkeep.status ⟨?_, htext⟩
        rw [← preparing_mem_transitions hmem]
        unfold PackageRow.status
        rw [hold]
        exact PackageStatus.ofCode?_code old
      · exact hne heq

def priceColumn : Column := ⟨"gia_goi_thau", .money, true, none, none, false⟩

theorem priceColumn_mem : priceColumn ∈ goiThauColumns := by decide

theorem lockedField_other : ∀ field ∈ packageLockedFields, ∀ column ∈ goiThauColumns,
    column.name = field.2 → column ≠ priceColumn → field.1 ∉ checkedKeys ∧ column.kind ≠ .money := by
  decide

theorem PackageRow.exists_price (row : PackageRow) : ∃ n : ℕ, n ≤ maxAmount ∧ row.columns.getValue "gia_goi_thau" = .int n := by
  have haccepted := row.accepted priceColumn priceColumn_mem
  unfold Column.accepts priceColumn at haccepted
  cases hvalue : row.columns.getValue "gia_goi_thau" with
  | int n =>
    simp only [hvalue, decide_true, Bool.true_and, Bool.and_eq_true, decide_eq_true_eq] at haccepted
    refine ⟨n.toNat, by omega, ?_⟩
    congr 1
    omega
  | none => simp [hvalue] at haccepted
  | bool b => simp [hvalue] at haccepted
  | str s => simp [hvalue] at haccepted
  | float t => simp [hvalue] at haccepted

theorem fieldText_int (n : ℕ) : (Scalar.int n).fieldText = toString (n : Int) :=
  pyStrip_toString_nat n

theorem toString_nat_injective {m n : ℕ} (h : toString (m : Int) = toString (n : Int)) : m = n := by
  have hread := Dec.ofText_toString m
  rw [h, Dec.ofText_toString] at hread
  simp only [some.injEq, Dec.mk.injEq, and_true] at hread
  omega

theorem fieldText_of_locked {item : PackageItem} {previous : Fields}
    (hlocked : lockStatus previous ≠ PackageStatus.preparing.label) (h : validatePackageLockedFields previous item false = [])
    (hfield : field ∈ packageLockedFields) {after : Scalar} (hafter : item.fields.get? field.1 = some after) :
    (previous.getValue field.2).fieldText = after.fieldText := by
  unfold validatePackageLockedFields at h
  simp only [hlocked, Bool.false_eq_true, or_self, if_false] at h
  have hnone := filterMap_eq_nil_iff.mp h field hfield
  simp only [hafter] at hnone
  by_contra hne
  rw [if_neg hne] at hnone
  cases hnone

theorem fieldText_updatePackage (h : updatePackage t refused row raw = some row')
    (hold : row.columns.getValue "trang_thai" = .str old.code) (hne : old ≠ .preparing) (hkeep : RespectsLock t row raw)
    (hfield : field ∈ packageLockedFields) : row'.fieldText field.2 = row.fieldText field.2 := by
  obtain ⟨-, herrors, hwritten⟩ := updatePackage_eq_some h
  unfold packageErrors at herrors
  simp only [append_eq_nil_iff] at herrors
  have hlocked : lockStatus row.columns ≠ PackageStatus.preparing.label := by
    rw [lockStatus_of_status hold]
    exact fun heq => hne (label_injective heq)
  obtain ⟨hkey, column, hmem, hname, hkind⟩ := lockedField_column field hfield
  have hcolumn : row'.columns.getValue field.2 = (writtenColumns row
      (canonicalizePackage t raw)).getValue field.2 := by rw [hwritten]
  unfold PackageRow.fieldText
  rw [hcolumn, ← hname, getValue_writtenColumns row _ hmem]
  rw [← hname] at hkey
  cases hvalue : (canonicalizePackage t raw).fields.get? (goiThauKey column.name) with
  | none => rfl
  | some value =>
    rw [bind_some]
    cases hserialized : serializeColumn column value with
    | none => rfl
    | some written =>
      simp only
      by_cases hprice : column = priceColumn
      · -- the price: the lock has compared the derived one
        subst hprice
        have hpriceKey : goiThauKey priceColumn.name = "giaGoiThau" := by decide
        obtain ⟨n, hn, hstored⟩ := row.exists_price
        have hstored' : row.columns.getValue priceColumn.name = .int n := hstored
        obtain ⟨amount, hamount, rfl⟩ := serializeColumn_money rfl rfl rfl hserialized
        rw [hstored', fieldText_int, fieldText_int]
        have hget : (canonicalizePackage t raw).get "giaGoiThau" = value := by
          rw [hpriceKey] at hvalue
          unfold PackageItem.get Fields.getValue
          rw [hvalue]
          rfl
        have hchecked := get?_price_validatePackageItem t (canonicalizePackage t raw)
        cases hderive : deriveLottedPackagePrice (canonicalizePackage t raw) with
        | some total =>
          rw [hderive, ← hpriceKey, ← hkey] at hchecked
          have hcompared := fieldText_of_locked hlocked herrors.2 hfield hchecked
          rw [← hname, hstored', fieldText_int, Scalar.fieldText_str, pyStrip_toString_nat] at hcompared
          rw [toString_nat_injective hcompared, hkeep.price total amount hderive (by rw [hget]; exact hamount)]
        | none =>
          rw [hderive, ← hpriceKey, hvalue, ← hkey] at hchecked
          have hcompared := fieldText_of_locked hlocked herrors.2 hfield hchecked
          rw [← hname, hstored', fieldText_int] at hcompared
          have hparsed := parseVndAmount_of_fieldText hn hcompared.symm
          rw [hamount] at hparsed
          rw [some.inj hparsed]
      · have hother := lockedField_other field hfield column hmem hname hprice
        have hchecked := get?_validatePackageItem_of_not_mem t (canonicalizePackage t raw) hother.1
        rw [hkey, hvalue, ← hkey] at hchecked
        have hcompared := fieldText_of_locked hlocked herrors.2 hfield hchecked
        rw [← hname] at hcompared
        rcases fieldText_serializeColumn hother.2 hkind hserialized with htext | ⟨text, hdefault, rfl⟩
        · rw [htext, hcompared]
        -- a default is never accepted
        have hrefused := not_accepts_upperDefault column hmem hkind
        rw [hdefault] at hrefused
        have haccepted := row'.accepted column hmem
        rw [hwritten, getValue_writtenColumns row _ hmem, hvalue, bind_some, hserialized] at haccepted
        simp [haccepted] at hrefused

end Update

/-! ## Runs -/

def PackageRow.Issued (row : PackageRow) : Prop :=
  ∃ status ∈ [PackageStatus.invited, .opened, .evaluating, .partiallyAwarded, .awarded, .cancelled], row.status = some status

def RunRespectsLock (t : PyText) (refused : PackageRow → PackageItem → Bool) : PackageRow → List PackageItem → Prop
  | _, [] => True
  | row, raw :: rest =>
    RespectsLock t row raw ∧
      RunRespectsLock t refused ((updatePackage t refused row raw).getD row) rest

/-- The locked fields of two rows have the same texts, and the second row is locked. -/
structure LockedAs (row row' : PackageRow) : Prop where
  fields : ∀ field ∈ packageLockedFields, row'.fieldText field.2 = row.fieldText field.2
  status : ∃ status : PackageStatus, row'.columns.getValue "trang_thai" = .str status.code ∧ status ≠ .preparing

/-- An update that respects the lock leaves the locked fields as they were issued. -/
theorem LockedAs.step {t : PyText} {refused : PackageRow → PackageItem → Bool}
    {row row' : PackageRow} {raw : PackageItem} (h : LockedAs row row')
    (hkeep : RespectsLock t row' raw) :
    LockedAs row ((updatePackage t refused row' raw).getD row') := by
  cases hupdate : updatePackage t refused row' raw with
  | none => exact h
  | some row'' =>
    obtain ⟨old, hold, hne⟩ := h.status
    refine ⟨fun field hfield => ?_, status_updatePackage hupdate hold hne hkeep⟩
    exact (fieldText_updatePackage hupdate hold hne hkeep hfield).trans (h.fields field hfield)

theorem LockedAs.run {t : PyText} {refused : PackageRow → PackageItem → Bool}
    {row row' : PackageRow} {items : List PackageItem} (h : LockedAs row row')
    (hkeep : RunRespectsLock t refused row' items) :
    LockedAs row (runUpdates t refused row' items) := by
  induction items generalizing row' with
  | nil => exact h
  | cons raw items ih => exact ih (h.step hkeep.1) hkeep.2

theorem RunRespectsLock.of_append {t : PyText} {refused : PackageRow → PackageItem → Bool}
    {row : PackageRow} {before after : List PackageItem}
    (h : RunRespectsLock t refused row (before ++ after)) : RunRespectsLock t refused row before := by
  induction before generalizing row with
  | nil => trivial
  | cons raw before ih => exact ⟨h.1, ih h.2⟩

theorem PackageRow.Issued.lockedAs {row : PackageRow} (h : row.Issued) : LockedAs row row := by
  obtain ⟨status, hmem, hstatus⟩ := h
  obtain ⟨stored, hstored, heq⟩ := row.exists_status
  rw [hstatus] at heq
  cases heq
  refine ⟨fun _ _ => rfl, status, hstored, ?_⟩
  rintro rfl
  simp at hmem

/-- Issued packages stay locked: from a row that has been issued, over every sequence of
updates that respect the lock, whatever the other checks refuse, every locked field keeps its
text in every row reached. -/
theorem locked_fields_stay (t : PyText) (refused : PackageRow → PackageItem → Bool)
    (row : PackageRow) (items : List PackageItem) (hissued : row.Issued) (hkeep : RunRespectsLock t refused row items) :
    ∀ before after, items = before ++ after → ∀ field ∈ packageLockedFields,
      (runUpdates t refused row before).fieldText field.2 = row.fieldText field.2 := by
  intro before after heq field hfield
  rw [heq] at hkeep
  exact (hissued.lockedAs.run hkeep.of_append).fields field hfield

def invitedColumns : Fields :=
  .ofList [("ma_goi_thau", .str "GT01"), ("ke_hoach_id", .str "p1"), ("ten_goi_thau", .str "A"),
    ("gia_goi_thau", .int 5), ("qua_mang", .str "Qua mạng"),
    ("trong_nuoc_quoc_te", .str "Trong nước"), ("thoi_gian_thuc_hien", .str "30"),
    ("nguon_von", .str "B"), ("thoi_gian_to_chuc", .str "60"),
    ("thoi_gian_bat_dau_to_chuc", .str "Quý I"), ("trang_thai", .str "INVITED")]

def invitedPackage : PackageRow := ⟨invitedColumns, by decide⟩

def packageUpdate (name status : String) : PackageItem :=
  ⟨"goithau[0]", .ofList [("id", .str "g1"), ("maGoiThau", .str "GT01"), ("keHoachId", .str "p1"),
    ("tenGoiThau", .str name), ("giaGoiThau", .str "5"), ("thoiGianThucHien", .str "30"),
    ("nguonVon", .str "B"), ("thoiGianToChuc", .str "60"),
    ("thoiGianBatDauToChuc", .str "Quý I"), ("trangThai", .str status)], none, none⟩

theorem invitedPackage_issued : invitedPackage.Issued :=
  ⟨.invited, by decide, by decide⟩

/-- A new name is refused before the package is cancelled and afterwards. -/
theorem locked_fields_stay_invited :
    let items := [packageUpdate "C" "Đã mời thầu", packageUpdate "A" "Hủy thầu", packageUpdate "C" "Hủy thầu"]
    (runUpdates PyText.plain (fun _ _ => false) invitedPackage items).fieldText "ten_goi_thau" = "A" := by
  intro items
  have hrespects : ∀ row, ∀ raw ∈ items, RespectsLock PyText.plain row raw := by
    intro row raw hraw
    have hstays : ∀ raw ∈ items,
      pyStrip ((canonicalizePackage PyText.plain raw).get "trangThai").text ≠ PackageStatus.preparing.label := by decide
    have hnone : ∀ raw ∈ items, deriveLottedPackagePrice (canonicalizePackage PyText.plain raw) = none := by decide
    refine ⟨fun h => hstays raw hraw h.2, fun total amount h _ => ?_⟩
    rw [hnone raw hraw] at h
    cases h
  have hkeep : RunRespectsLock PyText.plain (fun _ _ => false) invitedPackage items :=
    ⟨hrespects _ _ (.head _), hrespects _ _ (.tail _ (.head _)), hrespects _ _ (.tail _ (.tail _ (.head _))), trivial⟩
  have h := locked_fields_stay PyText.plain (fun _ _ => false) invitedPackage items
    invitedPackage_issued hkeep _ [] (append_nil _).symm ("tenGoiThau", "ten_goi_thau") (by decide)
  rw [h]
  decide

/-- The lock can be taken off: an invited package is cancelled, restored to the status of
preparation, and then given another name. -/
theorem restored_package_is_renamed : ¬ ∀ (t : PyText) (refused : PackageRow → PackageItem → Bool) (row : PackageRow)
    (items : List PackageItem), row.Issued → ∀ before after, items = before ++ after →
    ∀ field ∈ packageLockedFields, (runUpdates t refused row before).fieldText field.2 = row.fieldText field.2 := by
  intro h
  have hname := h PyText.plain (fun _ _ => false) invitedPackage _ invitedPackage_issued
    [packageUpdate "A" "Hủy thầu", packageUpdate "A" "Chuẩn bị", packageUpdate "C" "Chuẩn bị"] []
    (append_nil _).symm ("tenGoiThau", "ten_goi_thau") (by decide)
  revert hname
  decide

end Bidding
