import Bidding.Clarifications.Button

/-!
# The same rows on both sides

As both merges go through the same source rows, they have met the same ones, have as many rows without origin left,
and have added the same rows.
-/

namespace Bidding.Clarifications

open Foundations List
open Option hiding map_map or_assoc

variable {input : MergeInput} {kind : Kind}

def FormRow.core (row : FormRow) : List Char × List Char × List Char := (row.id, row.time, row.content)

def coreView (core : List Char × List Char × List Char) : List Char × List Char × Option (List Char) :=
  (core.2.1, core.2.2, if importedRowId core.1 then some core.1 else none)

def PlannedRow.view (row : PlannedRow) : List Char × List Char × Option (List Char) :=
  (row.displayTime, row.noiDung, if importedRowId row.id then some row.id else none)

def ButtonState.cores (state : ButtonState) : List (List Char × List Char × List Char) := state.rows.map FormRow.core

/-- Both merges have come equally far. -/
structure Parity (input : MergeInput) (kind : Kind) (count : ℕ) (items : List SourceItem) (py : MergeState)
    (js : ButtonState) : Prop where
  seen : ∀ key, (js.currentBySourceKey.get? key).isSome = true ↔ key ∈ py.seenKeys
  keys : ∀ key ∈ js.sourceKeys, key ∈ py.seenKeys
  named : ∀ key ∈ py.seenKeys, ∃ item ∈ items, rowIdOf input kind item = some key.2 ∧ item.1 = key.1
  byKey : ∀ key i, js.currentBySourceKey.get? key = some i → js.cores[i]?.map Prod.fst = some key.2
  byId : ∀ id i, js.currentById.get? id = some i → js.cores[i]?.map Prod.fst = some id
  ids : ∀ id, importedRowId id = true →
    ((js.currentById.get? id).isSome = true ↔ id ∈ py.currentIds ∨ ∃ version, (version, id) ∈ py.seenKeys)
  queue : ∀ q, ((js.unkeyedContentRows.get? q).getD []).length = left py.unkeyed q
  queued : ∀ q, ∀ i ∈ (js.unkeyedContentRows.get? q).getD [], i < count ∧
    ∃ core, js.cores[i]? = some core ∧ importedRowId core.1 = false ∧ contentIdentity input core.2.1 core.2.2 = q
  nodup : ∀ q, ((js.unkeyedContentRows.get? q).getD []).Nodup
  long : count ≤ js.cores.length
  added : (js.cores.drop count).map coreView = py.planned.map PlannedRow.view

def DistinctIds (input : MergeInput) (kind : Kind) (items : List SourceItem) : Prop :=
  ∀ item ∈ items, ∀ item' ∈ items, ∀ id, rowIdOf input kind item = some id → rowIdOf input kind item' = some id →
    item.1 = item'.1

theorem sourceKey_assign (item : SourceItem) :
    sourceKey (assignLocalRowId input kind item) = (rowIdOf input kind item).map fun id => (item.1, id) := by
  unfold sourceKey assignLocalRowId
  dsimp only
  cases hid : rowIdOf input kind item with
  | some id => rfl
  | none =>
    have hidentity : sourceIdentity item.2 = [] := by
      unfold rowIdOf at hid
      split at hid
      · assumption
      · cases hid
    dsimp only
    rw [if_pos hidentity]
    rfl

/-! ## Linking -/

theorem cores_linkKey (state : ButtonState) (i : ℕ) (key : Option (List Char × List Char)) :
    (linkKey state i key).cores = state.cores := by
  unfold linkKey
  split
  · rename_i key row hrow
    unfold ButtonState.cores
    split
    · rfl
    show (state.rows.set i _).map FormRow.core = _
    rw [map_set]
    apply ext_getElem?
    intro j
    rw [getElem?_set]
    split
    · rename_i hij
      subst hij
      rw [getElem?_map, hrow]
      split
      · rfl
      · rename_i hlt
        rw [length_map] at hlt
        exact absurd (List.getElem?_eq_some_iff.mp hrow).1 hlt
    · rfl
  · rfl

theorem get?_placeKey (places : Dict (List Char × List Char) ℕ) (key : Option (List Char × List Char)) (i : ℕ)
    (key' : List Char × List Char) :
    (placeKey places key i).get? key' = if key = some key' then some i else places.get? key' := by
  cases key with
  | none => exact (if_neg (by simp)).symm
  | some key =>
    unfold placeKey
    rw [Dict.get?_set]
    by_cases heq : key' = key
    · rw [if_pos heq, if_pos (congrArg some heq.symm)]
    · rw [if_neg heq, if_neg fun hsome => heq (some.inj hsome).symm]

variable {state : ButtonState} {i : ℕ} {core : List Char × List Char × List Char} {current : List StoredRow}

section

variable (h : state.cores[i]? = some core)
include h

theorem getElem?_cores : ∃ row, state.rows[i]? = some row ∧ row.core = core := by
  unfold ButtonState.cores at h
  rw [getElem?_map] at h
  exact map_eq_some_iff.mp h

/-- What linking a row by a key does beside the cores. -/
structure Linked (i : ℕ) (key : Option (List Char × List Char)) (before after : ButtonState) : Prop where
  unkeyed : after.unkeyedContentRows = before.unkeyedContentRows
  keys : after.sourceKeys = before.sourceKeys ++ key.toList
  byKey : ∀ key', after.currentBySourceKey.get? key' = if key = some key' then some i
    else before.currentBySourceKey.get? key'

theorem linkKey_linked (key : Option (List Char × List Char)) :
    Linked i key state (linkKey state i key) ∧ (linkKey state i key).currentById = state.currentById := by
  obtain ⟨row, hrow, -⟩ := getElem?_cores h
  unfold linkKey
  cases key with
  | none =>
    refine ⟨⟨rfl, (append_nil _).symm, fun key' => ?_⟩, rfl⟩
    rw [if_neg fun h => by cases h]
  | some key =>
    rw [hrow]
    have hget := get?_placeKey state.currentBySourceKey (some key) i
    dsimp only
    cases row.sourceKey.isSome with
    | true => exact ⟨⟨rfl, rfl, hget⟩, rfl⟩
    | false => exact ⟨⟨rfl, rfl, hget⟩, rfl⟩

theorem linkExisting_same (source : UpdateRow) (hid : ∀ id, source.localRowId = some id → core.1 = id) :
    Linked i (sourceKey source) state (linkExisting state i source) ∧
      (linkExisting state i source).cores = state.cores ∧
        (linkExisting state i source).currentById = state.currentById := by
  have hlink : linkId state i source.localRowId = state := by
    obtain ⟨row, hrow, hcore⟩ := getElem?_cores h
    unfold linkId
    cases hlocal : source.localRowId with
    | none => rfl
    | some id =>
      rw [hrow]
      have hsame : row.id = id := by
        rw [← hid id hlocal, ← hcore]
        rfl
      exact if_pos hsame
  obtain ⟨hlinked, hbyId⟩ := linkKey_linked h (sourceKey source)
  have hcores := cores_linkKey state i (sourceKey source)
  unfold linkExisting
  rw [hlink]
  exact ⟨⟨hlinked.unkeyed, hlinked.keys, hlinked.byKey⟩, hcores, hbyId⟩

theorem linkExisting_moved {source : UpdateRow} {id : List Char} (hlocal : source.localRowId = some id)
    (hid : core.1 ≠ id) : Linked i (sourceKey source) state (linkExisting state i source) ∧
      (linkExisting state i source).cores = state.cores.set i (id, core.2) ∧
        (linkExisting state i source).currentById = (state.currentById.erase core.1).set id i := by
  obtain ⟨row, hrow, hcore⟩ := getElem?_cores h
  have hne : row.id ≠ id := by
    rw [← hcore] at hid
    exact hid
  have hlink : linkId state i source.localRowId =
      { state with
        currentById := (state.currentById.erase row.id).set id i
        rows := state.rows.set i { row with id := id }
        linked := state.linked + 1 } := by
    unfold linkId
    rw [hlocal, hrow]
    exact if_neg hne
  have hmoved : (linkId state i source.localRowId).cores = state.cores.set i (id, core.2) := by
    rw [hlink, ← hcore]
    exact map_set
  have hlt : i < state.cores.length := (List.getElem?_eq_some_iff.mp h).1
  have hcore' : (linkId state i source.localRowId).cores[i]? = some (id, core.2) := by
    rw [hmoved, getElem?_set_self hlt]
  obtain ⟨hlinked, hbyId⟩ := linkKey_linked hcore' (sourceKey source)
  have hcores := cores_linkKey (linkId state i source.localRowId) i (sourceKey source)
  have hfields : (linkId state i source.localRowId).unkeyedContentRows = state.unkeyedContentRows ∧
      (linkId state i source.localRowId).sourceKeys = state.sourceKeys ∧
      (linkId state i source.localRowId).currentBySourceKey = state.currentBySourceKey ∧
      (linkId state i source.localRowId).currentById = (state.currentById.erase core.1).set id i := by
    rw [hlink, ← hcore]
    exact ⟨rfl, rfl, rfl, rfl⟩
  unfold linkExisting
  refine ⟨⟨hlinked.unkeyed.trans hfields.1, ?_, fun key' => ?_⟩, hcores.trans hmoved, hbyId.trans hfields.2.2.2⟩
  · rw [← hfields.2.1]
    exact hlinked.keys
  · rw [← hfields.2.2.1]
    exact hlinked.byKey key'

end

/-! ## One source row -/

theorem mem_itemKeys {item : SourceItem} {key : List Char × List Char} :
    key ∈ itemKeys input kind item ↔ (rowIdOf input kind item).map (fun id => (item.1, id)) = some key := by
  unfold itemKeys
  rw [mem_toList]

theorem seen_linked {py : MergeState} {js js' : ButtonState} {item : SourceItem}
    (hseen : ∀ key, (js.currentBySourceKey.get? key).isSome = true ↔ key ∈ py.seenKeys)
    (hlinked : Linked i ((rowIdOf input kind item).map fun id => (item.1, id)) js js') (key : List Char × List Char) :
    (js'.currentBySourceKey.get? key).isSome = true ↔ key ∈ py.seenKeys ++ itemKeys input kind item := by
  rw [hlinked.byKey, mem_append, mem_itemKeys, ← hseen]
  split
  · rename_i hkey
    exact ⟨fun _ => Or.inr hkey, fun _ => rfl⟩
  · rename_i hkey
    exact ⟨Or.inl, fun h => h.resolve_right hkey⟩

variable {count : ℕ} {items : List SourceItem} {py : MergeState} {js : ButtonState} {item : SourceItem}
  {q : List Char × List Char}
  {places : List ℕ}

section

variable (h : Parity input kind count items py js)
include h

theorem Parity.of_seen {seenKeys : List (List Char × List Char)} (hsame : ∀ key, key ∈ seenKeys ↔ key ∈ py.seenKeys) :
    Parity input kind count items { py with seenKeys := seenKeys } js where
  seen key := (h.seen key).trans (hsame key).symm
  keys key hkey := (hsame key).mpr (h.keys key hkey)
  named key hkey := h.named key ((hsame key).mp hkey)
  byKey := h.byKey
  byId := h.byId
  ids id hid := (h.ids id hid).trans (or_congr Iff.rfl (exists_congr fun version => (hsame (version, id)).symm))
  queue := h.queue
  queued := h.queued
  nodup := h.nodup
  long := h.long
  added := h.added

theorem Parity.pop {first : List Char}
    {rest : List (List Char)} (hqueue : py.unkeyed.get? q = some (first :: rest))
    (hplaces : js.unkeyedContentRows.get? q = some (i :: places)) :
    Parity input kind count items { py with unkeyed := py.unkeyed.set q rest }
      { js with unkeyedContentRows := js.unkeyedContentRows.set q places } := by
  have hget (q' : List Char × List Char) : ((js.unkeyedContentRows.set q places).get? q').getD [] =
      if q' = q then places else (js.unkeyedContentRows.get? q').getD [] := by
    rw [Dict.get?_set]
    split
    · rfl
    · rfl
  have hlength := h.queue q
  rw [hplaces, left_of_consumed hqueue] at hlength
  refine ⟨h.seen, h.keys, h.named, h.byKey, h.byId, h.ids, fun q' => ?_, fun q' j hj => ?_, fun q' => ?_, h.long, h.added⟩
  · show (((js.unkeyedContentRows.set q places).get? q').getD []).length = left (py.unkeyed.set q rest) q'
    rw [hget, left_set]
    split
    · exact Nat.succ.inj hlength
    · exact h.queue q'
  · have hj' : j ∈ ((js.unkeyedContentRows.set q places).get? q').getD [] := hj
    rw [hget] at hj'
    split at hj'
    · rename_i hq
      subst hq
      apply h.queued
      rw [hplaces]
      exact mem_cons_of_mem _ hj'
    · exact h.queued q' j hj'
  · show (((js.unkeyedContentRows.set q places).get? q').getD []).Nodup
    rw [hget]
    split
    · have hnodup := h.nodup q
      rw [hplaces] at hnodup
      exact (nodup_cons.mp hnodup).2
    · exact h.nodup q'

theorem Parity.not_queued (hplaces : js.unkeyedContentRows.get? q = some (i :: places)) (q' : List Char × List Char) :
    i ∉ ((js.unkeyedContentRows.set q places).get? q').getD [] := by
  intro hmem
  have hfirst : i ∈ (js.unkeyedContentRows.get? q).getD [] := by
    rw [hplaces]
    exact mem_cons_self
  rw [Dict.get?_set] at hmem
  split at hmem
  · have hnodup := h.nodup q
    rw [hplaces] at hnodup
    exact (nodup_cons.mp hnodup).1 hmem
  · rename_i hq
    obtain ⟨-, core, hcore, -, hidentity⟩ := h.queued q i hfirst
    obtain ⟨-, core', hcore', -, hidentity'⟩ := h.queued q' i hmem
    obtain rfl := mem_unique hcore hcore'
    exact hq (hidentity'.symm.trans hidentity)

end

theorem named_append (h : ∀ key ∈ py.seenKeys, ∃ item ∈ items, rowIdOf input kind item = some key.2 ∧ item.1 = key.1)
    (hitem : item ∈ items) : ∀ key ∈ py.seenKeys ++ itemKeys input kind item,
      ∃ item ∈ items, rowIdOf input kind item = some key.2 ∧ item.1 = key.1 := by
  intro key hkey
  rcases mem_append.mp hkey with hearlier | hnew
  · exact h key hearlier
  · obtain ⟨id, hid, rfl⟩ := map_eq_some_iff.mp (mem_itemKeys.mp hnew)
    exact ⟨item, hitem, hid, rfl⟩

theorem keys_linked {js' : ButtonState} (h : ∀ key ∈ js.sourceKeys, key ∈ py.seenKeys)
    (hlinked : Linked i ((rowIdOf input kind item).map fun id => (item.1, id)) js js') :
    ∀ key ∈ js'.sourceKeys, key ∈ py.seenKeys ++ itemKeys input kind item := by
  intro key hkey
  rw [hlinked.keys] at hkey
  rcases mem_append.mp hkey with hearlier | hnew
  · exact mem_append_left _ (h key hearlier)
  · exact mem_append_right _ hnew

theorem exists_version_append {id : List Char} : (∃ version, (version, id) ∈ py.seenKeys ++ itemKeys input kind item) ↔
    (∃ version, (version, id) ∈ py.seenKeys) ∨ rowIdOf input kind item = some id := by
  constructor
  · rintro ⟨version, hmem⟩
    rcases mem_append.mp hmem with hearlier | hnew
    · exact Or.inl ⟨version, hearlier⟩
    · obtain ⟨id', hid, heq⟩ := map_eq_some_iff.mp (mem_itemKeys.mp hnew)
      rw [hid, (Prod.mk.inj heq).2]
      exact Or.inr rfl
  · rintro (⟨version, hmem⟩ | hid)
    · exact ⟨version, mem_append_left _ hmem⟩
    · exact ⟨item.1, mem_append_right _ (mem_itemKeys.mpr (by rw [hid]; rfl))⟩

theorem Parity.link_same (h : Parity input kind count items py js) (hitem : item ∈ items) (hcore : js.cores[i]? = some core)
    (hid : ∀ id, rowIdOf input kind item = some id → core.1 = id ∧ (js.currentById.get? id).isSome = true) :
    Parity input kind count items { py with seenKeys := py.seenKeys ++ itemKeys input kind item }
      (linkExisting js i (assignLocalRowId input kind item)) := by
  obtain ⟨hlinked, hcores, hbyId⟩ := linkExisting_same hcore (assignLocalRowId input kind item) fun id hlocal =>
    (hid id hlocal).1
  rw [sourceKey_assign] at hlinked
  refine ⟨seen_linked h.seen hlinked, keys_linked h.keys hlinked, named_append h.named hitem, fun key j hj => ?_, ?_,
    fun id himported => ?_, ?_, ?_, ?_, ?_, ?_⟩
  · rw [hcores]
    rw [hlinked.byKey] at hj
    split at hj
    · rename_i hkey
      obtain ⟨id, hrow, rfl⟩ := map_eq_some_iff.mp hkey
      rw [← some.inj hj, hcore]
      exact congrArg some (hid id hrow).1
    · exact h.byKey key j hj
  · rw [hbyId, hcores]
    exact h.byId
  · rw [hbyId, h.ids id himported]
    show _ ↔ id ∈ py.currentIds ∨ ∃ version, (version, id) ∈ py.seenKeys ++ itemKeys input kind item
    rw [exists_version_append, ← or_assoc]
    constructor
    · exact Or.inl
    · rintro (hold | hrow)
      · exact hold
      · exact (h.ids id himported).mp (hid id hrow).2
  · rw [hlinked.unkeyed]
    exact h.queue
  · rw [hlinked.unkeyed, hcores]
    exact h.queued
  · rw [hlinked.unkeyed]
    exact h.nodup
  · rw [hcores]
    exact h.long
  · rw [hcores]
    exact h.added

theorem Parity.link_moved (h : Parity input kind count items py js) (hitem : item ∈ items)
    (hcore : js.cores[i]? = some core) (hunkeyed : importedRowId core.1 = false) (hlt : i < count)
    (hnot : ∀ q, i ∉ (js.unkeyedContentRows.get? q).getD []) {id : List Char} (hid : rowIdOf input kind item = some id) :
    Parity input kind count items { py with seenKeys := py.seenKeys ++ itemKeys input kind item }
      (linkExisting js i (assignLocalRowId input kind item)) := by
  have himported := importedRowId_of_rowIdOf hid
  have hne {id' : List Char} (hid' : importedRowId id' = true) : id' ≠ core.1 := by
    rintro rfl
    rw [hunkeyed] at hid'
    cases hid'
  obtain ⟨hlinked, hcores, hbyId⟩ := @linkExisting_moved js i core hcore (assignLocalRowId input kind item) id hid
    (Ne.symm (hne himported))
  rw [sourceKey_assign] at hlinked
  have hlength : i < js.cores.length := (List.getElem?_eq_some_iff.mp hcore).1
  have hself : (js.cores.set i (id, core.2))[i]? = some (id, core.2) := getElem?_set_self hlength
  have hother {j : ℕ} (hj : j ≠ i) : (js.cores.set i (id, core.2))[j]? = js.cores[j]? :=
    getElem?_set_ne (Ne.symm hj)
  refine ⟨seen_linked h.seen hlinked, keys_linked h.keys hlinked, named_append h.named hitem, fun key j hj => ?_,
    fun id' j hj => ?_, fun id' himported' => ?_, ?_, fun q j hj => ?_, ?_, ?_, ?_⟩
  · rw [hcores]
    rw [hlinked.byKey] at hj
    split at hj
    · rename_i hkey
      rw [hid] at hkey
      rw [← some.inj hj, hself, ← some.inj hkey]
      rfl
    · have hold := h.byKey key j hj
      obtain ⟨item', -, hid', -⟩ := h.named key ((h.seen key).mp (by rw [hj]; rfl))
      rw [hother]
      · exact hold
      · rintro rfl
        rw [hcore] at hold
        exact hne (importedRowId_of_rowIdOf hid') (some.inj hold).symm
  · rw [hcores]
    rw [hbyId, Dict.get?_set] at hj
    split at hj
    · rename_i heq
      rw [← some.inj hj, hself, heq]
      rfl
    · rw [Dict.get?_erase] at hj
      split at hj
      · cases hj
      rename_i hnotCore
      have hold := h.byId id' j hj
      rw [hother]
      · exact hold
      · rintro rfl
        rw [hcore] at hold
        exact hnotCore (some.inj hold).symm
  · show _ ↔ id' ∈ py.currentIds ∨ ∃ version, (version, id') ∈ py.seenKeys ++ itemKeys input kind item
    rw [exists_version_append, hbyId, Dict.get?_set]
    split
    · rename_i heq
      rw [heq]
      exact ⟨fun _ => Or.inr (Or.inr hid), fun _ => rfl⟩
    · rename_i heq
      rw [Dict.get?_erase_of_ne _ (hne himported'), h.ids id' himported', ← or_assoc]
      constructor
      · exact Or.inl
      · rintro (hold | hrow)
        · exact hold
        · rw [hid] at hrow
          exact absurd (some.inj hrow).symm heq
  · rw [hlinked.unkeyed]
    exact h.queue
  · rw [hlinked.unkeyed] at hj
    have hji : j ≠ i := by
      rintro rfl
      exact hnot q hj
    rw [hcores, hother hji]
    exact h.queued q j hj
  · rw [hlinked.unkeyed]
    exact h.nodup
  · rw [hcores, length_set]
    exact h.long
  · rw [hcores, drop_set_of_lt hlt]
    exact h.added

def addedRow (input : MergeInput) (kind : Kind) (state : ButtonState) (item : SourceItem) : FormRow :=
  ⟨(rowIdOf input kind item).getD (rowIdStart ++ (input.uuid state.generated).1),
    formatForDatetimeLocal input.parseOther item.2.time, item.2.content, (rowIdOf input kind item).map fun id => (item.1, id)⟩

variable (state : ButtonState)

theorem importedRowId_addedRow (item : SourceItem) :
    importedRowId (addedRow input kind state item).id = (rowIdOf input kind item).isSome := by
  unfold addedRow
  dsimp only
  cases hid : rowIdOf input kind item with
  | none => exact importedRowId_random _
  | some id => exact importedRowId_of_rowIdOf hid

theorem addedRow_id {id : List Char} (hid : rowIdOf input kind item = some id) : (addedRow input kind state item).id = id := by
  unfold addedRow
  rw [hid]
  rfl

theorem plannedRow_id (state : MergeState) {id : List Char} (hid : rowIdOf input kind item = some id) :
    (plannedRow input kind state item).id = id := by
  unfold plannedRow
  rw [hid]
  rfl

theorem coreView_addedRow (before : MergeState) (item : SourceItem) :
    coreView (addedRow input kind state item).core = (plannedRow input kind before item).view := by
  have hleft := @importedRowId_addedRow input kind state item
  have hright := @importedRowId_plannedRow input kind before item
  unfold coreView PlannedRow.view FormRow.core
  dsimp only
  rw [hleft, hright]
  cases hid : rowIdOf input kind item with
  | none => rfl
  | some id =>
    rw [addedRow_id state hid, plannedRow_id before hid]
    rfl

theorem Parity.add (h : Parity input kind count items py js) (hitem : item ∈ items) (generated : ℕ) :
    Parity input kind count items
      { py with
        currentIds := py.currentIds ++ [(plannedRow input kind py item).id]
        seenKeys := py.seenKeys ++ itemKeys input kind item
        planned := py.planned ++ [plannedRow input kind py item]
        generated := generated }
      (addRow input js (assignLocalRowId input kind item)) := by
  have hrow : addRow input js (assignLocalRowId input kind item) =
      { js with
        rows := js.rows ++ [addedRow input kind js item]
        currentById := js.currentById.set (addedRow input kind js item).id js.rows.length
        sourceKeys := js.sourceKeys ++ (sourceKey (assignLocalRowId input kind item)).toList
        currentBySourceKey := placeKey js.currentBySourceKey (sourceKey (assignLocalRowId input kind item)) js.rows.length
        added := js.added + 1
        generated := if (rowIdOf input kind item).isSome then js.generated else js.generated + 1 } := by
    unfold addRow addedRow
    rw [sourceKey_assign]
    rfl
  have hview := @coreView_addedRow input kind js py item
  have hunnamed : importedRowId (addedRow input kind js item).id = (rowIdOf input kind item).isSome :=
    importedRowId_addedRow js item
  have hrowId {id : List Char} (hid : rowIdOf input kind item = some id) : (addedRow input kind js item).id = id :=
    addedRow_id js hid
  rw [hrow, sourceKey_assign]
  generalize addedRow input kind js item = row at hview hunnamed hrowId ⊢
  have hlength : js.cores.length = js.rows.length := length_map _
  have hcores : (js.rows ++ [row]).map FormRow.core = js.cores ++ [row.core] := by
    rw [map_append]
    rfl
  have hold {j : ℕ} {core : List Char × List Char × List Char} (hcore : js.cores[j]? = some core) :
      (js.cores ++ [row.core])[j]? = some core := by
    rw [getElem?_append_left (List.getElem?_eq_some_iff.mp hcore).1]
    exact hcore
  have hnew : (js.cores ++ [row.core])[js.rows.length]?.map Prod.fst = some row.id := by
    rw [← hlength, getElem?_concat_length]
    rfl
  have hkept {j : ℕ} {id : List Char} (hcore : js.cores[j]?.map Prod.fst = some id) :
      (js.cores ++ [row.core])[j]?.map Prod.fst = some id := by
    obtain ⟨core, hcore', hid⟩ := map_eq_some_iff.mp hcore
    rw [hold hcore', ← hid]
    rfl
  refine ⟨fun key => ?_, fun key hmem => ?_, named_append h.named hitem, fun key j hj => ?_, fun id j hj => ?_,
    fun id himported => ?_, h.queue, fun q j hj => ?_, h.nodup, ?_, ?_⟩
  · show ((placeKey _ _ _).get? key).isSome = true ↔ key ∈ py.seenKeys ++ itemKeys input kind item
    rw [get?_placeKey, mem_append, mem_itemKeys, ← h.seen]
    split
    · rename_i hkey'
      exact ⟨fun _ => Or.inr hkey', fun _ => rfl⟩
    · rename_i hkey'
      exact ⟨Or.inl, fun h => h.resolve_right hkey'⟩
  · rcases mem_append.mp hmem with hearlier | hlast
    · exact mem_append_left _ (h.keys key hearlier)
    · exact mem_append_right _ hlast
  · have hj' : (placeKey js.currentBySourceKey ((rowIdOf input kind item).map fun id => (item.1, id))
        js.rows.length).get? key = some j := hj
    show ((js.rows ++ [row]).map FormRow.core)[j]?.map Prod.fst = some key.2
    rw [hcores]
    rw [get?_placeKey] at hj'
    split at hj'
    · rename_i hkey'
      obtain ⟨id, hid, rfl⟩ := map_eq_some_iff.mp hkey'
      rw [← some.inj hj', hnew, hrowId hid]
    · exact hkept (h.byKey key j hj')
  · have hj' : (js.currentById.set row.id js.rows.length).get? id = some j := hj
    show ((js.rows ++ [row]).map FormRow.core)[j]?.map Prod.fst = some id
    rw [hcores]
    rw [Dict.get?_set] at hj'
    split at hj'
    · rename_i heq
      rw [← some.inj hj', hnew, heq]
    · exact hkept (h.byId id j hj')
  · show ((js.currentById.set row.id js.rows.length).get? id).isSome = true ↔
      id ∈ py.currentIds ++ [(plannedRow input kind py item).id] ∨
        ∃ version, (version, id) ∈ py.seenKeys ++ itemKeys input kind item
    have hplanned : id = (plannedRow input kind py item).id → rowIdOf input kind item = some id := by
      intro heq
      have hsome := @importedRowId_plannedRow input kind py item
      rw [← heq, himported] at hsome
      obtain ⟨id', hid⟩ := isSome_iff_exists.mp hsome.symm
      rw [hid, heq, plannedRow_id py hid]
    have hrow' : id = row.id → rowIdOf input kind item = some id := by
      intro heq
      rw [← heq, himported] at hunnamed
      obtain ⟨id', hid⟩ := isSome_iff_exists.mp hunnamed.symm
      rw [hid, heq, hrowId hid]
    rw [exists_version_append, mem_append, mem_singleton, Dict.get?_set]
    split
    · rename_i heq
      exact ⟨fun _ => Or.inr (Or.inr (hrow' heq)), fun _ => rfl⟩
    rename_i hne
    rw [h.ids id himported]
    constructor
    · rintro (hknown | hmet)
      · exact Or.inl (Or.inl hknown)
      · exact Or.inr (Or.inl hmet)
    · rintro ((hknown | hlast) | hmet | hnamed)
      · exact Or.inl hknown
      · exact absurd (hrowId (hplanned hlast)).symm hne
      · exact Or.inr hmet
      · exact absurd (hrowId hnamed).symm hne
  · obtain ⟨hlt, core, hcore, hspec⟩ := h.queued q j hj
    refine ⟨hlt, core, ?_, hspec⟩
    show ((js.rows ++ [row]).map FormRow.core)[j]? = some core
    rw [hcores]
    exact hold hcore
  · show count ≤ ((js.rows ++ [row]).map FormRow.core).length
    rw [hcores, length_append]
    exact Nat.le_add_right_of_le h.long
  · show (((js.rows ++ [row]).map FormRow.core).drop count).map coreView = (py.planned ++ [_]).map PlannedRow.view
    rw [hcores, drop_append_of_le_length h.long, map_append, map_append, h.added, map_singleton,
      map_singleton, hview]

theorem Parity.of_skipped (h : Parity input kind count items py js) (skipped : ℕ) :
    Parity input kind count items py { js with skipped := skipped } :=
  ⟨h.seen, h.keys, h.named, h.byKey, h.byId, h.ids, h.queue, h.queued, h.nodup, h.long, h.added⟩

def findNamed (input : MergeInput) (kind : Kind) (item : SourceItem) : Option ℕ :=
  (((rowIdOf input kind item).map fun id => (item.1, id)).bind state.currentBySourceKey.get?).or
    ((rowIdOf input kind item).bind state.currentById.get?)

theorem mergeUpdateRow_usable (husable : Usable input item) : mergeUpdateRow input state (assignLocalRowId input kind item) =
    ((findNamed state input kind item).map fun i => linkExisting state i (assignLocalRowId input kind item)).getD
      (if ((state.unkeyedContentRows.get? (itemIdentity input item)).getD []).isEmpty then
        if ((rowIdOf input kind item).map fun id => (item.1, id)).any fun key => state.sourceKeys.contains key then
          { state with skipped := state.skipped + 1 }
          else addRow input state (assignLocalRowId input kind item)
        else
          linkExisting { state with
            unkeyedContentRows := state.unkeyedContentRows.set (itemIdentity input item)
              ((state.unkeyedContentRows.get? (itemIdentity input item)).getD []).tail }
            (((state.unkeyedContentRows.get? (itemIdentity input item)).getD []).headD 0)
            (assignLocalRowId input kind item)) := by
  have hnot : ¬(formatForDatetimeLocal input.parseOther item.2.time = [] ∨ normalizedContent item.2.content = []) :=
    not_or.mpr husable
  unfold mergeUpdateRow
  rw [sourceKey_assign]
  dsimp only
  have hsource : (assignLocalRowId input kind item).source = item.2 := rfl
  rw [hsource, if_neg hnot]
  have hfind : (((rowIdOf input kind item).map fun id => (item.1, id)).bind state.currentBySourceKey.get?).or
      ((assignLocalRowId input kind item).localRowId.bind state.currentById.get?) = findNamed state input kind item := rfl
  rw [hfind]
  cases findNamed state input kind item with
  | some i => rfl
  | none =>
    dsimp only
    have hidentity : contentIdentity input (formatForDatetimeLocal input.parseOther item.2.time) item.2.content =
        itemIdentity input item := rfl
    rw [hidentity]
    cases state.unkeyedContentRows.get? (itemIdentity input item) with
    | none => rfl
    | some places =>
      cases places with
      | nil => rfl
      | cons i places => rfl

section

variable (h : Parity input kind count items py js)
include h

section

variable (hdistinct : DistinctIds input kind items)
include hdistinct

theorem Parity.findNamed_none
    (hitem : item ∈ items) (hunmet : Unmet input kind py item) : findNamed js input kind item = none := by
  unfold findNamed
  cases hid : rowIdOf input kind item with
  | none => rfl
  | some id =>
    obtain ⟨hfresh, hunknown⟩ := hunmet id hid
    have hkey : js.currentBySourceKey.get? (item.1, id) = none :=
      Option.not_isSome_iff_eq_none.mp fun hsome => hfresh ((h.seen _).mp hsome)
    have hbyId : js.currentById.get? id = none := by
      cases hget : js.currentById.get? id with
      | none => rfl
      | some i =>
        rcases (h.ids id (importedRowId_of_rowIdOf hid)).mp (by rw [hget]; rfl) with hknown | ⟨version, hmet⟩
        · exact absurd hknown hunknown
        obtain ⟨item', hitem', hid', hversion⟩ := h.named _ hmet
        have hsame := hdistinct item hitem item' hitem' id hid hid'
        rw [hsame, hversion] at hfresh
        exact absurd hmet hfresh
    rw [map_some, bind_some, bind_some, hkey, hbyId]
    rfl

/-- The two merges take an item the same way, and are in step after it. -/
theorem Parity.step (hitem : item ∈ items) : Parity input kind count items (mergeSource input kind py item)
    (mergeUpdateRow input js (assignLocalRowId input kind item)) := by
  have hstep := mergeSource_step input kind py item
  generalize mergeSource input kind py item = next at hstep ⊢
  cases hstep with
  | skipped hnot =>
    have hskip : mergeUpdateRow input js (assignLocalRowId input kind item) = { js with skipped := js.skipped + 1 } := by
      apply if_pos
      by_contra hboth
      exact hnot (not_or.mp hboth)
    rw [hskip]
    exact h.of_skipped _
  | seen husable id hid hseen =>
    obtain ⟨i, hget⟩ := isSome_iff_exists.mp ((h.seen (item.1, id)).mpr hseen)
    have hfind : findNamed js input kind item = some i := by
      unfold findNamed
      rw [hid, map_some, bind_some, hget]
      rfl
    obtain ⟨core, hcore, hcoreId⟩ := map_eq_some_iff.mp (h.byKey _ i hget)
    have hlinked := h.link_same hitem hcore fun id' hid' => by
      obtain rfl := mem_unique hid hid'
      exact ⟨hcoreId, (h.ids _ (importedRowId_of_rowIdOf hid)).mpr (Or.inr ⟨item.1, hseen⟩)⟩
    rw [mergeUpdateRow_usable js husable, hfind]
    have hsame := @Parity.of_seen _ _ _ _ _ _ hlinked py.seenKeys fun key => by
      rw [mem_append, mem_itemKeys, hid]
      constructor
      · exact Or.inl
      · rintro (hmem | hkey)
        · exact hmem
        · rw [← some.inj hkey]
          exact hseen
    exact hsame
  | known husable id hid hfresh hknown =>
    have hkey : js.currentBySourceKey.get? (item.1, id) = none :=
      Option.not_isSome_iff_eq_none.mp fun hsome => hfresh ((h.seen _).mp hsome)
    have hsome := (h.ids _ (importedRowId_of_rowIdOf hid)).mpr (Or.inl hknown)
    obtain ⟨i, hget⟩ := isSome_iff_exists.mp hsome
    have hfind : findNamed js input kind item = some i := by
      unfold findNamed
      rw [hid, map_some, bind_some, hkey, bind_some, hget]
      rfl
    obtain ⟨core, hcore, hcoreId⟩ := map_eq_some_iff.mp (h.byId _ i hget)
    rw [mergeUpdateRow_usable js husable, hfind]
    exact h.link_same hitem hcore fun id' hid' => by
      obtain rfl := mem_unique hid hid'
      exact ⟨hcoreId, hsome⟩
  | consumed husable hunmet first rest hqueue =>
    have hlength := h.queue (itemIdentity input item)
    rw [left_of_consumed hqueue] at hlength
    obtain ⟨i, places, hplaces⟩ : ∃ i places, js.unkeyedContentRows.get? (itemIdentity input item) = some (i :: places) := by
      cases hget : js.unkeyedContentRows.get? (itemIdentity input item) with
      | none =>
        rw [hget] at hlength
        cases hlength
      | some places =>
        cases places with
        | nil =>
          rw [hget] at hlength
          cases hlength
        | cons i places => exact ⟨i, places, rfl⟩
    obtain ⟨hlt, core, hcore, hunkeyed, -⟩ := h.queued (itemIdentity input item) i (by rw [hplaces]; exact mem_cons_self)
    rw [mergeUpdateRow_usable js husable, h.findNamed_none hdistinct hitem hunmet, hplaces]
    have hpop := h.pop hqueue hplaces
    cases hid : rowIdOf input kind item with
    | none =>
      exact hpop.link_same hitem hcore fun id' hid' => by
        rw [hid] at hid'
        cases hid'
    | some id => exact hpop.link_moved hitem hcore hunkeyed hlt (h.not_queued hplaces) hid
  | planned husable hunmet hqueue =>
    have hlength := h.queue (itemIdentity input item)
    rw [left_of_empty hqueue] at hlength
    have hempty : (js.unkeyedContentRows.get? (itemIdentity input item)).getD [] = [] := eq_nil_of_length_eq_zero hlength
    rw [mergeUpdateRow_usable js husable, h.findNamed_none hdistinct hitem hunmet, hempty]
    have hfresh : ¬(((rowIdOf input kind item).map fun id => (item.1, id)).any
        fun key => js.sourceKeys.contains key) = true := by
      intro hany
      obtain ⟨key, hkey, hmem⟩ := any_some hany
      obtain ⟨id, hid, rfl⟩ := map_eq_some_iff.mp hkey
      exact (hunmet id hid).1 (h.keys _ (contains_iff_mem.mp hmem))
    rw [map_none, getD_none, isEmpty_nil, if_pos rfl, if_neg hfresh]
    exact h.add hitem _

theorem Parity.foldl
    {rest : List SourceItem} (hrest : ∀ item ∈ rest, item ∈ items) :
    Parity input kind count items (rest.foldl (mergeSource input kind) py)
      ((rest.map (assignLocalRowId input kind)).foldl (mergeUpdateRow input) js) := by
  induction rest generalizing py js with
  | nil => exact h
  | cons item rest ih =>
    rw [forall_mem_cons] at hrest
    exact ih (h.step hdistinct hrest.1) hrest.2

end

end

/-! ## The rows before the merge -/

/-- The bookkeeping of the form over the first rows. -/
structure Noted (input : MergeInput) (current rows : List StoredRow) (state : ButtonState) : Prop where
  whole : state.rows = current.map StoredRow.form
  byKey : state.currentBySourceKey = Dict.empty
  keys : state.sourceKeys = []
  byId : ∀ id i, state.currentById.get? id = some i → current[i]?.map StoredRow.id = some id
  ids : ∀ id, id ≠ [] → ((state.currentById.get? id).isSome = true ↔ id ∈ rows.map StoredRow.id)
  queue : ∀ q, ((state.unkeyedContentRows.get? q).getD []).length = left (rows.foldl (addUnkeyed input) Dict.empty) q
  queued : ∀ q, ∀ i ∈ (state.unkeyedContentRows.get? q).getD [], i < rows.length ∧
    ∃ row, current[i]? = some row ∧ importedRowId row.id = false ∧ contentIdentity input row.thoiGian row.noiDung = q
  nodup : ∀ q, ((state.unkeyedContentRows.get? q).getD []).Nodup

def noteId (id : List Char) (i : ℕ) : ButtonState :=
  if id = [] then state else { state with currentById := state.currentById.set id i }

theorem noteRow_form (row : StoredRow) (i : ℕ) : noteRow input state (row.form, i) = if unkeyedRow row then
    { noteId state row.id i with
      unkeyedContentRows := state.unkeyedContentRows.set (contentIdentity input row.thoiGian row.noiDung)
            ((state.unkeyedContentRows.get? (contentIdentity input row.thoiGian row.noiDung)).getD [] ++ [i]) }
      else noteId state row.id i := by
  unfold noteRow noteId unkeyedRow StoredRow.form
  dsimp only
  by_cases hid : row.id = []
  · rw [if_pos hid]
  · rw [if_neg hid]

/-- One more row is noted after those before it. -/
theorem Noted.step {rows : List StoredRow} {state : ButtonState} (h : Noted input current rows state)
    {row : StoredRow} (hrow : current[rows.length]? = some row) :
    Noted input current (rows ++ [row]) (noteRow input state (row.form, rows.length)) := by
  have hids (id : List Char) : (noteId state row.id rows.length).currentById.get? id =
      if row.id ≠ [] ∧ id = row.id then some rows.length else state.currentById.get? id := by
    unfold noteId
    by_cases hempty : row.id = []
    · rw [if_pos hempty, if_neg fun hboth => hboth.1 hempty]
    rw [if_neg hempty]
    show (state.currentById.set row.id rows.length).get? id = _
    rw [Dict.get?_set]
    by_cases heq : id = row.id
    · rw [if_pos heq, if_pos ⟨hempty, heq⟩]
    · rw [if_neg heq, if_neg fun hboth => heq hboth.2]
  have hbyId : ∀ id i, (noteId state row.id rows.length).currentById.get? id = some i →
      current[i]?.map StoredRow.id = some id := by
    intro id i hi
    rw [hids] at hi
    split at hi
    · rename_i hboth
      rw [← some.inj hi, hrow, hboth.2]
      rfl
    · exact h.byId id i hi
  have hmem : ∀ id, id ≠ [] → (((noteId state row.id rows.length).currentById.get? id).isSome = true ↔
      id ∈ (rows ++ [row]).map StoredRow.id) := by
    intro id hne
    rw [hids, map_append, mem_append, map_singleton, mem_singleton]
    split
    · rename_i hboth
      exact ⟨fun _ => Or.inr hboth.2, fun _ => rfl⟩
    rename_i hnot
    rw [h.ids id hne]
    constructor
    · exact Or.inl
    · rintro (hold | hlast)
      · exact hold
      · exact absurd ⟨hlast ▸ hne, hlast⟩ hnot
  have hfields : (noteId state row.id rows.length).rows = state.rows ∧
      (noteId state row.id rows.length).currentBySourceKey = state.currentBySourceKey ∧
      (noteId state row.id rows.length).sourceKeys = state.sourceKeys ∧
      (noteId state row.id rows.length).unkeyedContentRows = state.unkeyedContentRows := by
    unfold noteId
    split
    · exact ⟨rfl, rfl, rfl, rfl⟩
    · exact ⟨rfl, rfl, rfl, rfl⟩
  have hfold : (rows ++ [row]).foldl (addUnkeyed input) Dict.empty =
      addUnkeyed input (rows.foldl (addUnkeyed input) Dict.empty) row := by
    rw [foldl_append]
    rfl
  have hless {q : List Char × List Char} {i : ℕ} (hi : i ∈ (state.unkeyedContentRows.get? q).getD []) :
      i < (rows ++ [row]).length ∧ ∃ row, current[i]? = some row ∧ importedRowId row.id = false ∧
        contentIdentity input row.thoiGian row.noiDung = q := by
    obtain ⟨hlt, hspec⟩ := h.queued q i hi
    exact ⟨Nat.lt_of_lt_of_le hlt (by rw [length_append]; exact Nat.le_add_right _ _), hspec⟩
  rw [noteRow_form]
  cases hunkeyed : unkeyedRow row with
  | false =>
    rw [if_neg Bool.false_ne_true]
    refine ⟨hfields.1.trans h.whole, hfields.2.1.trans h.byKey, hfields.2.2.1.trans h.keys, hbyId, hmem, ?_, ?_, ?_⟩
    · intro q
      have hnone : storedFor input q row = false := by
        unfold storedFor
        rw [hunkeyed, Bool.false_and]
      rw [hfields.2.2.2, hfold, left_addUnkeyed, hnone]
      exact h.queue q
    · intro q i hi
      rw [hfields.2.2.2] at hi
      exact hless hi
    · rw [hfields.2.2.2]
      exact h.nodup
  | true =>
    rw [if_pos rfl]
    have hget (q : List Char × List Char) : ((state.unkeyedContentRows.set (contentIdentity input row.thoiGian row.noiDung)
          ((state.unkeyedContentRows.get? (contentIdentity input row.thoiGian row.noiDung)).getD [] ++
            [rows.length])).get? q).getD [] = if q = contentIdentity input row.thoiGian row.noiDung then
            (state.unkeyedContentRows.get? q).getD [] ++ [rows.length]
          else (state.unkeyedContentRows.get? q).getD [] := by
      rw [Dict.get?_set]
      split
      · rename_i hq
        rw [hq]
        rfl
      · rfl
    have himported : importedRowId row.id = false := by
      unfold unkeyedRow at hunkeyed
      rw [Bool.and_eq_true, Bool.and_eq_true, Bool.not_eq_true'] at hunkeyed
      exact hunkeyed.1.1
    refine ⟨hfields.1.trans h.whole, hfields.2.1.trans h.byKey, hfields.2.2.1.trans h.keys, hbyId, hmem,
      fun q => ?_, fun q i hi => ?_, fun q => ?_⟩
    · show (((state.unkeyedContentRows.set _ _).get? q).getD []).length = _
      rw [hget, hfold, left_addUnkeyed, ← h.queue q]
      unfold storedFor
      rw [hunkeyed, Bool.true_and]
      by_cases hq : q = contentIdentity input row.thoiGian row.noiDung
      · rw [if_pos hq, decide_eq_true hq.symm, length_append]
        rfl
      · rw [if_neg hq, decide_eq_false (Ne.symm hq)]
        rfl
    · have hi' : i ∈ ((state.unkeyedContentRows.set _ _).get? q).getD [] := hi
      rw [hget] at hi'
      split at hi'
      · rename_i hq
        rcases mem_append.mp hi' with hearlier | hlast
        · exact hless hearlier
        · rw [mem_singleton.mp hlast]
          exact ⟨by rw [length_append]; exact Nat.lt_succ_self _, row, hrow, himported, hq.symm⟩
      · exact hless hi'
    · show (((state.unkeyedContentRows.set _ _).get? q).getD []).Nodup
      rw [hget]
      split
      · rw [nodup_append]
        refine ⟨h.nodup q, nodup_singleton _, fun i hi j hj heq => ?_⟩
        have hlt := (h.queued q i hi).1
        rw [heq, mem_singleton.mp hj] at hlt
        exact Nat.lt_irrefl _ hlt
      · exact h.nodup q

theorem noted_zipIdx {rows rest : List StoredRow} (h : current = rows ++ rest) (generated : ℕ) :
    Noted input current rows ((rows.map StoredRow.form).zipIdx.foldl (noteRow input)
      ⟨current.map StoredRow.form, Dict.empty, Dict.empty, Dict.empty, [], 0, 0, 0, 0, generated⟩) := by
  induction rows using List.reverseRecOn generalizing rest with
  | nil =>
    refine ⟨rfl, rfl, rfl, fun id i hget => ?_, fun id _ => ⟨fun hsome => ?_, fun hmem => ?_⟩, fun _ => rfl,
      fun q i hmem => ?_, fun _ => nodup_nil⟩
    · cases hget
    · cases hsome
    · cases hmem
    · cases hmem
  | append_singleton rows row ih =>
    rw [append_assoc] at h
    have hrow : current[rows.length]? = some row := by
      rw [h, getElem?_append_right (Nat.le_refl _), Nat.sub_self]
      rfl
    rw [map_append, zipIdx_append, foldl_append]
    have hstep := (ih h).step hrow
    rw [length_map, Nat.zero_add]
    exact hstep

theorem parity_start (current : List StoredRow) (items : List SourceItem) (generated generated' : ℕ) :
    Parity input kind current.length items (mergeStart input current generated)
      (buttonStart input (current.map StoredRow.form) generated') := by
  have h := @noted_zipIdx input current current [] (append_nil _).symm generated'
  have hbutton : (current.map StoredRow.form).zipIdx.foldl (noteRow input)
      ⟨current.map StoredRow.form, Dict.empty, Dict.empty, Dict.empty, [], 0, 0, 0, 0, generated'⟩ =
        buttonStart input (current.map StoredRow.form) generated' := rfl
  rw [hbutton] at h
  generalize buttonStart input (current.map StoredRow.form) generated' = state at h ⊢
  have hcores : state.cores = current.map fun row => row.form.core := by
    unfold ButtonState.cores
    rw [h.whole, map_map]
    rfl
  have hnone (key : List Char × List Char) : state.currentBySourceKey.get? key = none := by
    rw [h.byKey]
    rfl
  refine ⟨fun key => ?_, fun key hkey => ?_, fun key hkey => absurd hkey not_mem_nil, fun key i hi => ?_,
    fun id i hi => ?_, fun id himported => ?_, h.queue, fun q i hi => ?_, h.nodup, ?_, ?_⟩
  · rw [hnone]
    constructor
    · exact fun hsome => absurd hsome Bool.false_ne_true
    · exact fun hmem => absurd hmem not_mem_nil
  · rw [h.keys] at hkey
    exact absurd hkey not_mem_nil
  · rw [hnone] at hi
    cases hi
  · rw [hcores, getElem?_map, Option.map_map]
    exact h.byId id i hi
  · have hne : id ≠ [] := by
      rintro rfl
      revert himported
      decide
    rw [h.ids id hne]
    constructor
    · exact Or.inl
    · rintro (hmem | ⟨version, hmem⟩)
      · exact hmem
      · exact absurd hmem not_mem_nil
  · obtain ⟨hlt, row, hrow, himported, hidentity⟩ := h.queued q i hi
    refine ⟨hlt, row.form.core, ?_, himported, hidentity⟩
    rw [hcores, getElem?_map, hrow]
    rfl
  · rw [hcores, length_map]
  · rw [hcores, drop_of_length_le (by rw [length_map])]
    rfl

theorem mergeInvitationUpdateRows_added {versions : List (List Char × SourceRows)}
    (hdistinct : DistinctIds input kind (sourceItems versions kind)) (generated generated' : ℕ) :
    ((mergeInvitationUpdateRows input ((current.filter fun row => row.loai = kind).map StoredRow.form)
      ((sourceItems versions kind).map (assignLocalRowId input kind)) generated').cores.drop
        (current.filter fun row => row.loai = kind).length).map coreView =
      (mergeKind input kind current versions generated).planned.map PlannedRow.view :=
  ((parity_start (current.filter fun row => row.loai = kind) (sourceItems versions kind) generated generated').foldl
    hdistinct fun _ hitem => hitem).added

end Bidding.Clarifications
