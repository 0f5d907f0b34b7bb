import Bidding.Delta.Pages

/-!
# What the batched authorization lets through

The batch policy reads one item at a time (`allows_iff`). It agrees with the policy for a single record on every candidate
but the tombstone of a package child, which the batch looks up among the live children (`batchReads_eq`).
-/

namespace Bidding.Delta

open Foundations List

variable {db : Database} {reader : Reader}

variable {after through : ℕ}

variable {c : Candidate} {t : TableKey} {record : Fields} {name text : String} {candidates : List Candidate} {item : ReadItem}

theorem mem_deltaUnion : c ∈ db.deltaUnion reader after through ↔
    (∃ r ∈ db.rows c.table, c = r.candidate c.table ∧ db.livePredicate reader c.table r = true ∧
      after < r.version ∧ r.version ≤ through) ∨
    (∃ d ∈ db.tombstones, c = d.candidate ∧ db.deletionPredicate reader d = true ∧
      after < d.version ∧ d.version ≤ through) := by
  simp only [Database.deltaUnion, mem_append, mem_flatMap, mem_map, mem_filter,
    Bool.and_eq_true, decide_eq_true_eq]
  constructor
  · rintro (⟨t, -, r, ⟨hr, ⟨hlive, hafter⟩, hthrough⟩, rfl⟩ | ⟨t, -, d, ⟨hd, ⟨⟨rfl, hdel⟩, hafter⟩, hthrough⟩, rfl⟩)
    · exact .inl ⟨r, hr, rfl, hlive, hafter, hthrough⟩
    · exact .inr ⟨d, hd, rfl, hdel, hafter, hthrough⟩
  · rintro (⟨r, hr, hc, hlive, hafter, hthrough⟩ | ⟨d, hd, rfl, hdel, hafter, hthrough⟩)
    · exact .inl ⟨c.table, TableKey.mem_all _, r, ⟨hr, ⟨hlive, hafter⟩, hthrough⟩, hc.symm⟩
    · exact .inr ⟨d.table, TableKey.mem_all _, d, ⟨hd, ⟨⟨rfl, hdel⟩, hafter⟩, hthrough⟩, rfl⟩

theorem item_id (hc : c ∈ db.deltaUnion reader after through) : c.item.id = .str c.recordId ∧ IsStoredId c.recordId := by
  have hitem : (c.record.isEmpty = false → c.record.getValue "id" = .str c.recordId) → c.item.id = .str c.recordId := by
    intro hid
    unfold Candidate.item
    split
    · rfl
    · rename_i hne
      exact hid (by simpa using hne)
  rcases mem_deltaUnion.mp hc with ⟨r, hr, hcand, -⟩ | ⟨d, hd, rfl, -⟩
  · rw [hcand] at hitem ⊢
    obtain ⟨hid, hstored⟩ := db.row_id _ r hr
    exact ⟨hitem fun _ => hid, hstored⟩
  · obtain ⟨hstored, hid⟩ := db.snapshot_id d hd
    exact ⟨hitem hid, hstored⟩

def Database.liveChildAssigned (db : Database) (reader : Principal) (t : TableKey) (id : String) : Bool :=
  (db.rows t).any fun r => r.id = id && (column r.columns "goi_thau_id").any fun package =>
      db.grantsLive reader.userId package "goithau"

def Database.effectiveTarget (db : Database) (reader : Principal) (type id : String) : Bool :=
  db.grantsLive reader.userId id type
    || (type = "kehoach" && db.anyPackageOf id fun package => db.grantsLive reader.userId package "goithau")

/-- Whether the batch policy keeps an item. -/
def Database.batchReads (db : Database) (reader : Principal) (t : TableKey) (item : ReadItem) : Bool :=
  if reader.isOrganizationManager then true
  else if reader.personalOwner then !t.writeProtected
  else if t = .assignments ∨ t = .permissionmatrix then
    (if item.empId.truthy then item.empId.text else "") = reader.userId
  else if !reader.canReadTable t then false
  else if t.packageChild then (idOf item.id).any fun id => db.liveChildAssigned reader t id
  else match t.assignedType with
    | none => true
    | some type => (idOf item.id).any fun id => db.effectiveTarget reader type id

theorem mem_assignedChildren {reader : Principal} {ids : List String} {id : String} :
    id ∈ db.assignedChildren reader.userId t ids ↔
      id ∈ ids ∧ db.liveChildAssigned reader t id = true := by
  simp only [Database.assignedChildren, Database.liveChildAssigned, mem_filterMap,
    mem_filter, any_eq_true, Bool.and_eq_true, decide_eq_true_eq]
  constructor
  · rintro ⟨r, ⟨hr, hmem, hassigned⟩, hid⟩
    obtain rfl : r.id = id := Option.some.inj ((db.row_id t r hr).2.symm.trans hid)
    exact ⟨hmem, r, hr, rfl, hassigned⟩
  · rintro ⟨hmem, r, hr, rfl, hassigned⟩
    exact ⟨r, ⟨hr, hmem, hassigned⟩, (db.row_id t r hr).2⟩

theorem mem_effectiveAssignmentTargets {reader : Principal} {type id : String} {targets : List String} :
    id ∈ db.effectiveAssignmentTargets reader.userId type targets ↔
      id ∈ targets ∧ db.effectiveTarget reader type id = true := by
  simp [Database.effectiveAssignmentTargets, Database.effectiveTarget]

theorem filter_queried (items : List ReadItem) (found : List String) (p : String → Bool)
    (h : ∀ id, id ∈ found ↔ id ∈ items.filterMap (fun item => idOf item.id) ∧ p id = true) :
    (items.filter fun item => (idOf item.id).any fun id => decide (id ∈ found)) =
      items.filter fun item => (idOf item.id).any p := by
  apply filter_congr
  intro item hitem
  cases hid : idOf item.id with
  | none => rfl
  | some id =>
    have hmem : id ∈ items.filterMap fun item => idOf item.id :=
      mem_filterMap.mpr ⟨item, hitem, hid⟩
    simp [h id, hmem]

theorem filterItemsForRead_eq {reader : Principal} (t : TableKey) (items : List ReadItem) :
    db.filterItemsForRead reader t items = items.filter (db.batchReads reader t) := by
  unfold Database.filterItemsForRead Database.batchReads
  by_cases hmanager : reader.isOrganizationManager
  · simp [hmanager]
  by_cases howner : reader.personalOwner
  · cases t.writeProtected <;> simp [hmanager, howner]
  by_cases hown : t = .assignments ∨ t = .permissionmatrix
  · simp [hmanager, howner, hown]
  cases htable : reader.canReadTable t with
  | false => simp [hmanager, howner, hown]
  | true =>
    simp only [hmanager, howner, hown, Bool.not_true, Bool.false_eq_true, if_false]
    cases hchild : t.packageChild with
    | true => exact filter_queried items _ _ fun id => mem_assignedChildren
    | false =>
      cases hassigned : t.assignedType with
      | none => simp
      | some type => exact filter_queried items _ _ fun id => mem_effectiveAssignmentTargets

/-! ## The page does not matter -/

def Candidate.key (c : Candidate) : Kind × TableKey × String := (c.kind, c.table, c.recordId)

theorem nodup_keys : ((db.deltaUnion reader after through).map Candidate.key).Nodup := by
  unfold Database.deltaUnion
  rw [map_append, nodup_append]
  refine ⟨?_, ?_, ?_⟩
  · rw [map_flatMap, nodup_flatMap]
    refine ⟨fun t _ => ?_, TableKey.nodup_all.imp fun {t u} htu => ?_⟩
    · rw [map_map]
      have hids := (db.nodup_ids t).sublist (List.Sublist.map LiveRow.id (filter_sublist (p := fun r =>
        db.livePredicate reader t r && decide (after < r.version) && decide (r.version ≤ through))))
      have hmap := hids.map (f := fun id => (Kind.upsert, t, id)) fun a b h => by simpa using h
      rw [map_map] at hmap
      exact hmap
    · intro k hk hk'
      simp only [mem_map] at hk hk'
      obtain ⟨c, ⟨r, -, rfl⟩, rfl⟩ := hk
      obtain ⟨c', ⟨r', -, rfl⟩, hkey⟩ := hk'
      simp only [Candidate.key, LiveRow.candidate, Prod.mk.injEq] at hkey
      exact htu hkey.2.1.symm
  · rw [map_flatMap, nodup_flatMap]
    refine ⟨fun t _ => ?_, TableKey.nodup_all.imp fun {t u} htu => ?_⟩
    · rw [map_map]
      have hids := db.nodup_tombstones.sublist (List.Sublist.map (fun d => (d.table, d.recordId))
        (filter_sublist (p := fun d : Tombstone => decide (d.table = t) && db.deletionPredicate reader d
          && decide (after < d.version) && decide (d.version ≤ through))))
      have hmap := hids.map (f := fun k => (Kind.delete, k)) fun a b h => by simpa using h
      rw [map_map] at hmap
      exact hmap
    · intro k hk hk'
      simp only [mem_map, mem_filter, Bool.and_eq_true, decide_eq_true_eq] at hk hk'
      obtain ⟨c, ⟨d, ⟨-, ⟨⟨rfl, -⟩, -⟩, -⟩, rfl⟩, rfl⟩ := hk
      obtain ⟨c', ⟨d', ⟨-, ⟨⟨rfl, -⟩, -⟩, -⟩, rfl⟩, hkey⟩ := hk'
      simp only [Candidate.key, Tombstone.candidate, Prod.mk.injEq] at hkey
      exact htu hkey.2.1.symm
  · intro k hk k' hk' heq
    simp only [mem_map, mem_flatMap] at hk hk'
    obtain ⟨c, ⟨t, -, r, -, rfl⟩, rfl⟩ := hk
    obtain ⟨c', ⟨u, -, d, -, rfl⟩, rfl⟩ := hk'
    simp [Candidate.key, LiveRow.candidate, Tombstone.candidate] at heq

theorem isEmpty_of_column (h : column record name = some text) : record.isEmpty = false := by
  rw [Bool.eq_false_iff, ne_eq, Dict.isEmpty_iff]
  intro hempty
  rw [column_eq_some, Fields.getValue, hempty] at h
  exact absurd h (by simp)

theorem empId_of_scope (hscoped : reader.unrestricted = false)
    (hc : c ∈ db.deltaUnion reader after through) (hown : c.table = .assignments ∨ c.table = .permissionmatrix) :
    c.item.empId = .str reader.userId := by
  have hcolumn : column c.record (if c.table = .permissionmatrix then "emp_id" else "id_nhan_vien") = some reader.userId := by
    rcases mem_deltaUnion.mp hc with ⟨r, -, hcand, hlive, -⟩ | ⟨d, -, rfl, hdel, -⟩
    · rw [show c.record = r.columns by rw [hcand]; rfl]
      rcases hown with htable | htable <;>
        simpa [Database.livePredicate, hscoped, htable] using hlive
    · rcases hown with htable | htable <;>
        simp_all [Database.deletionPredicate, Tombstone.candidate]
  have hitem : c.item = mapDbToJson c.table c.record := by simp [Candidate.item, isEmpty_of_column hcolumn]
  rw [hitem]
  exact column_eq_some.mp hcolumn

theorem batchReads_congr {c' : Candidate}
    (hc : c ∈ db.deltaUnion reader after through) (hc' : c' ∈ db.deltaUnion reader after through)
    (htable : c'.table = c.table) (hid : c'.recordId = c.recordId) :
    db.batchReads reader c.table c'.item = db.batchReads reader c.table c.item := by
  have hids : c'.item.id = c.item.id := by rw [(item_id hc).1, (item_id hc').1, hid]
  unfold Database.batchReads
  by_cases hmanager : reader.isOrganizationManager
  · simp [hmanager]
  by_cases howner : reader.personalOwner
  · simp [hmanager, howner]
  have hscoped : reader.unrestricted = false := by simp [Principal.unrestricted, hmanager, howner]
  by_cases hown : c.table = .assignments ∨ c.table = .permissionmatrix
  · rw [empId_of_scope hscoped hc hown, empId_of_scope hscoped hc' (htable ▸ hown)]
    simp only [hown, if_true]
  · simp only [hmanager, howner, hown, hids, if_false]

theorem exists_itemOnPage (hc : c ∈ candidates) : ∃ c' ∈ candidates, c'.table = c.table ∧ c'.recordId = c.recordId ∧
    itemOnPage candidates c = c'.item := by
  unfold itemOnPage preparedUpsert
  cases hfind : candidates.reverse.find? fun c' => c'.kind = .upsert && c'.table = c.table
      && c'.recordId = c.recordId && !c'.record.isEmpty with
  | none => exact ⟨c, hc, rfl, rfl, rfl⟩
  | some c' =>
    have hfound := find?_some hfind
    simp only [Bool.and_eq_true, decide_eq_true_eq] at hfound
    exact ⟨c', mem_reverse.mp (mem_of_find?_eq_some hfind), hfound.1.1.2, hfound.1.2, rfl⟩

theorem allows_iff (hsub : ∀ c ∈ candidates, c ∈ db.deltaUnion reader after through) (hc : c ∈ candidates) :
    db.allows reader candidates c = db.batchReads reader c.table c.item := by
  -- on the page, an item of the same table and id is read as this one is
  have hread : ∀ c' ∈ candidates, c'.table = c.table →
      (itemOnPage candidates c').id = .str c'.recordId ∧ (c'.recordId = c.recordId →
        db.batchReads reader c.table (itemOnPage candidates c') = db.batchReads reader c.table c.item) := by
    intro c' hc' htable
    obtain ⟨c'', hc'', htable', hid', hitem⟩ := exists_itemOnPage hc'
    rw [hitem, (item_id (hsub c'' hc'')).1, hid']
    refine ⟨rfl, fun hid => ?_⟩
    exact batchReads_congr (hsub c hc) (hsub c'' hc'') (htable'.trans htable) (hid'.trans hid)
  obtain ⟨hself, hown⟩ := hread c hc rfl
  rw [Bool.eq_iff_iff]
  unfold Database.allows Database.allowedIds
  rw [decide_eq_true_iff, filterItemsForRead_eq, hself]
  simp only [mem_map, mem_filter, decide_eq_true_eq]
  constructor
  · rintro ⟨item, ⟨⟨⟨c', ⟨hc', htable⟩, rfl⟩, hreads⟩, -⟩, hid⟩
    obtain ⟨hid', hcongr⟩ := hread c' hc' htable
    rw [hid'] at hid
    exact (hcongr hid).symm.trans hreads
  · intro hreads
    refine ⟨_, ⟨⟨⟨c, ⟨hc, rfl⟩, rfl⟩, (hown rfl).trans hreads⟩, ?_⟩, by rw [hself]⟩
    simp [hself]

/-! ## The batch policy and the policy for one record -/

theorem Principal.scoped_iff {reader : Principal} : reader.unrestricted = false ↔
    reader.isOrganizationManager = false ∧ reader.personalOwner = false := by
  simp [Principal.unrestricted]

theorem Principal.not_managerRole_of_scoped {reader : Principal}
    (hscoped : reader.unrestricted = false) : reader.isManagerRole = false := by
  obtain ⟨hmanager, -⟩ := Principal.scoped_iff.mp hscoped
  by_cases hemployee : reader.activeRole = some "employee"
  · simp [Principal.isManagerRole, hemployee]
  · simp only [Principal.isOrganizationManager, hemployee, if_false, Bool.or_eq_false_iff] at hmanager
    exact hmanager.1

theorem Principal.isMember_of_scoped {reader : Principal} (hscoped : reader.unrestricted = false) :
    reader.hasActiveOrganizationMembership = reader.membershipRole.isSome := by
  simp [Principal.hasActiveOrganizationMembership, Principal.not_managerRole_of_scoped hscoped]

theorem Reader.isMember_of_scoped (hscoped : reader.unrestricted = false) : reader.hasActiveOrganizationMembership = true := by
  obtain ⟨-, howner⟩ := Principal.scoped_iff.mp hscoped
  rw [Principal.isMember_of_scoped hscoped]
  simpa [howner] using reader.admitted

theorem hasModule_eq {reader : Principal} (hscoped : reader.unrestricted = false) (t : TableKey) :
    reader.hasModule t = reader.hasModulePermission t.toModule := by
  obtain ⟨hmanager, howner⟩ := Principal.scoped_iff.mp hscoped
  have hactive := Principal.isMember_of_scoped hscoped
  unfold Principal.hasModule Principal.hasModulePermission
  cases t.toModule with
  | none => rfl
  | some module =>
    by_cases hmember : reader.membershipRole = none
    · simp [hmanager, howner, hactive, hmember, Principal.scopePermission, Principal.hasInheritedSpecialistAccess]
    have hsome : reader.membershipRole.isSome = true := Option.isSome_iff_ne_none.mpr hmember
    simp only [hmanager, howner, hactive, hsome, Principal.scopePermission, if_neg hmember, Bool.false_or, Bool.true_and]
    by_cases hedit : reader.permission module = "edit"
    · simp [hedit]
    · by_cases hview : reader.permission module = "view" <;>
        cases reader.hasInheritedSpecialistAccess <;> simp [hedit, hview]

theorem canReadTable_of_scope (hscoped : reader.unrestricted = false) (hc : c ∈ db.deltaUnion reader after through) :
    reader.canReadTable c.table = true := by
  obtain ⟨hmanager, howner⟩ := Principal.scoped_iff.mp hscoped
  have hactive := Reader.isMember_of_scoped hscoped
  by_cases hown : c.table = .assignments ∨ c.table = .permissionmatrix
  · simp [Principal.canReadTable, hmanager, howner, hactive, hown]
  have hmodule : reader.hasModule c.table = true := by
    obtain ⟨hassign, hpermission⟩ := not_or.mp hown
    by_contra hmodule
    rcases mem_deltaUnion.mp hc with ⟨r, -, -, hlive, -⟩ | ⟨d, -, rfl, hdel, -⟩
    · simp [Database.livePredicate, hscoped, hassign, hpermission, hmodule] at hlive
    · simp_all [Database.deletionPredicate, Tombstone.candidate]
  rw [hasModule_eq hscoped] at hmodule
  simp [Principal.canReadTable, hmanager, howner, hactive, hown, hmodule]

theorem batchReads_scoped {reader : Principal} (hscoped : reader.unrestricted = false)
    (hown : ¬ (t = .assignments ∨ t = .permissionmatrix)) (htable : reader.canReadTable t = true) :
    db.batchReads reader t item = if t.packageChild then (idOf item.id).any fun id => db.liveChildAssigned reader t id
      else match t.assignedType with
        | none => true
        | some type => (idOf item.id).any fun id => db.effectiveTarget reader type id := by
  obtain ⟨hmanager, howner⟩ := Principal.scoped_iff.mp hscoped
  simp [Database.batchReads, hmanager, howner, hown, htable]

theorem canReadRecord_scoped {reader : Principal} (hscoped : reader.unrestricted = false)
    (htable : reader.canReadTable t = true) :
    db.canReadRecord reader t item = if t.packageChild then db.assigned reader.userId (db.parentOf t item) "goithau"
      else match t.assignedType with
        | none => true
        | some type => (idOf item.id).any fun id => db.effectiveTarget reader type id := by
  obtain ⟨hmanager, howner⟩ := Principal.scoped_iff.mp hscoped
  simp only [Database.canReadRecord, hmanager, howner, htable, Bool.false_eq_true, if_false, Bool.not_true]
  cases t.packageChild with
  | true => rfl
  | false =>
    cases t.assignedType with
    | none => rfl
    | some type =>
      cases idOf item.id with
      | none => rfl
      | some id =>
        show decide _ = db.effectiveTarget reader type id
        rw [Bool.eq_iff_iff, decide_eq_true_iff, mem_effectiveAssignmentTargets]
        simp

theorem parentOf_of_column {package : String}
    (hcolumn : column record "goi_thau_id" = some package) (hstored : IsStoredId package) :
    db.parentOf t (mapDbToJson t record) = some package := by
  have hid : idOf (mapDbToJson t record).goiThauId = some package := by
    rw [show (mapDbToJson t record).goiThauId = .str package from column_eq_some.mp hcolumn]
    exact hstored
  simp [Database.parentOf, hid]

theorem item_of_column (h : column c.record name = some text) : c.item = mapDbToJson c.table c.record := by
  simp [Candidate.item, isEmpty_of_column h]

theorem reads_liveChild (hscoped : reader.unrestricted = false) {r : LiveRow}
    (hr : r ∈ db.rows t) (hlive : db.livePredicate reader t r = true) (hchild : t.packageChild = true) :
    db.liveChildAssigned reader t r.id = true ∧
      db.assigned reader.userId (db.parentOf t (r.candidate t).item) "goithau" = true := by
  have htables : t ≠ .assignments ∧ t ≠ .permissionmatrix ∧ t ≠ .kehoach := by
    refine ⟨?_, ?_, ?_⟩ <;> rintro rfl <;> simp [TableKey.packageChild] at hchild
  have hassigned : (column r.columns "goi_thau_id").any
      (fun package => db.grantsLive reader.userId package "goithau") = true := by
    have h := hlive
    simp only [Database.livePredicate, hscoped, htables, hchild, Bool.false_eq_true, if_false, if_true] at h
    split at h
    · exact absurd h (by simp)
    · exact h
  obtain ⟨package, hcolumn, hgrants⟩ := (Option.any_eq_true _ _).mp hassigned
  refine ⟨?_, ?_⟩
  · exact any_eq_true.mpr ⟨r, hr, by simp [hassigned]⟩
  · rw [show (r.candidate t).item = mapDbToJson t r.columns from item_of_column hcolumn]
    rw [show db.parentOf t (mapDbToJson t r.columns) = some package from
      parentOf_of_column hcolumn (db.row_package t r hr package hcolumn)]
    exact hgrants

theorem batchReads_eq (hc : c ∈ db.deltaUnion reader after through)
    (h : reader.unrestricted = true ∨ c.kind = .upsert ∨ c.table.packageChild = false) :
    db.batchReads reader c.table c.item = db.canReadRecord reader c.table c.item := by
  cases hscoped : reader.unrestricted with
  | true =>
    by_cases hmanager : reader.isOrganizationManager
    · simp [Database.batchReads, Database.canReadRecord, hmanager]
    · have howner : reader.personalOwner = true := by
        simpa [Principal.unrestricted, hmanager] using hscoped
      simp [Database.batchReads, Database.canReadRecord, hmanager, howner]
  | false =>
    have htable := canReadTable_of_scope hscoped hc
    rw [canReadRecord_scoped hscoped htable]
    by_cases hown : c.table = .assignments ∨ c.table = .permissionmatrix
    · obtain ⟨hmanager, howner⟩ := Principal.scoped_iff.mp hscoped
      have hempId := empId_of_scope hscoped hc hown
      rcases hown with hown | hown <;>
        simp_all [Database.batchReads, TableKey.packageChild, TableKey.assignedType, Scalar.truthy, Scalar.text]
    · rw [batchReads_scoped hscoped hown htable]
      cases hchild : c.table.packageChild with
      | false => rfl
      | true =>
        have hkind : c.kind = .upsert := by simpa [hscoped, hchild] using h
        rcases mem_deltaUnion.mp hc with ⟨r, hr, hcand, hlive, -⟩ | ⟨d, -, rfl, -⟩
        · obtain ⟨hid, hstored⟩ := item_id hc
          have hrecord : c.recordId = r.id := by rw [hcand]; rfl
          obtain ⟨hbatch, hsingle⟩ := reads_liveChild hscoped hr hlive hchild
          rw [← hcand] at hsingle
          rw [if_pos rfl, if_pos rfl, hsingle, hid, hstored, hrecord]
          exact hbatch
        · exact absurd hkind (by simp [Tombstone.candidate])

theorem batchReads_childTombstone (hscoped : reader.unrestricted = false)
    {d : Tombstone} (hmem : d ∈ db.tombstones)
    (hd : d.candidate ∈ db.deltaUnion reader after through)
    (hchild : d.table.packageChild = true) :
    db.batchReads reader d.table d.candidate.item = db.liveChildAssigned reader d.table d.recordId ∧
    db.canReadRecord reader d.table d.candidate.item =
      db.assigned reader.userId (column d.snapshot "goi_thau_id") "goithau" := by
  have htable : reader.canReadTable d.table = true := canReadTable_of_scope hscoped hd
  obtain ⟨hid, hstored⟩ := item_id hd
  have htables : d.table ≠ .assignments ∧ d.table ≠ .permissionmatrix ∧ d.table ≠ .kehoach := by
    refine ⟨?_, ?_, ?_⟩ <;> intro h <;> simp [h, TableKey.packageChild] at hchild
  have hown : ¬ (d.table = .assignments ∨ d.table = .permissionmatrix) :=
    not_or.mpr ⟨htables.1, htables.2.1⟩
  refine ⟨?_, ?_⟩
  · rw [batchReads_scoped hscoped hown htable, if_pos hchild, hid]
    rw [show (d.candidate).recordId = d.recordId from rfl] at hstored ⊢
    rw [hstored]
    rfl
  · rw [canReadRecord_scoped hscoped htable, if_pos hchild]
    -- the scope shows the tombstone by the package of its snapshot
    obtain ⟨package, hcolumn⟩ : ∃ package, column d.snapshot "goi_thau_id" = some package := by
      rcases mem_deltaUnion.mp hd with ⟨r, -, hcand, -⟩ | ⟨d', -, heq, hdel, -⟩
      · exact absurd (congrArg Candidate.kind hcand) (by simp [Tombstone.candidate, LiveRow.candidate])
      obtain ⟨rfl⟩ : d = d' := by
        cases d; cases d'; simp_all [Tombstone.candidate]
      cases hcolumn : column d.snapshot "goi_thau_id" with
      | none => simp [Database.deletionPredicate, hscoped, htables, hchild, hcolumn] at hdel
      | some package => exact ⟨package, rfl⟩
    rw [hcolumn, show d.candidate.item = mapDbToJson d.table d.snapshot from item_of_column hcolumn,
      parentOf_of_column hcolumn (db.snapshot_package d hmem package hcolumn)]

end Bidding.Delta
