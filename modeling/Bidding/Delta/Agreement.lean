import Bidding.Delta.Authorized

/-!
# The two read policies

`livePredicate` is the read policy as part of a query, `filterItemsForRead` and `canReadRecord` are the read policy over
records. The first two agree wherever no administrator of the platform stands in a personal workspace
(`batchReads_live`).
-/

namespace Bidding.Delta

open Foundations List

/-- A workspace whose tables keep their `NOT NULL` columns. -/
structure StoredDatabase extends Database where
  assignee : ∀ r ∈ rows .assignments, (column r.columns "id_nhan_vien").isSome = true
  employee : ∀ r ∈ rows .permissionmatrix, (column r.columns "emp_id").isSome = true
  package : ∀ t, t.packageChild = true → ∀ r ∈ rows t, (column r.columns "goi_thau_id").isSome = true

def LiveRow.item (r : LiveRow) (t : TableKey) : ReadItem := mapDbToJson t r.columns

def ReadItem.ofId (id : String) : ReadItem := ⟨.str id, .none, .none⟩

def TableKey.personalRows (t : TableKey) : Bool := t = .assignments ∨ t = .permissionmatrix

def LiveRow.ownedBy (r : LiveRow) (t : TableKey) (user : String) : Bool :=
  column r.columns (if t = .permissionmatrix then "emp_id" else "id_nhan_vien") = some user

variable {db : StoredDatabase} {reader : Principal} {t : TableKey} {r : LiveRow} {item : ReadItem}

section

variable (hr : r ∈ db.rows t)
include hr

theorem item_id_of_row : idOf (r.item t).id = some r.id := by
  obtain ⟨hid, hstored⟩ := db.row_id t r hr
  rw [show (r.item t).id = .str r.id from hid]
  exact hstored

theorem find?_row : (db.rows t).find? (fun r' => r'.id = r.id) = some r := by
  cases hfind : (db.rows t).find? (fun r' => r'.id = r.id) with
  | none => exact absurd (List.find?_eq_none.mp hfind r hr) (by simp)
  | some r' =>
    have hid : r'.id = r.id := by simpa using find?_some hfind
    rw [inj_on_of_nodup_map (db.nodup_ids t) (mem_of_find?_eq_some hfind) hr hid]

theorem any_row_iff (p : LiveRow → Bool) : ((db.rows t).any fun r' => r'.id = r.id && p r') = p r := by
  rw [Bool.eq_iff_iff, any_eq_true]
  constructor
  · rintro ⟨r', hr', hboth⟩
    obtain ⟨hid, hp⟩ := (Bool.and_eq_true _ _).mp hboth
    obtain rfl : r' = r :=
      inj_on_of_nodup_map (db.nodup_ids t) hr' hr (of_decide_eq_true hid)
    exact hp
  · intro hp
    exact ⟨r, hr, by simp [hp]⟩

theorem exists_package (hchild : t.packageChild = true) :
    ∃ package, column r.columns "goi_thau_id" = some package ∧ IsStoredId package := by
  obtain ⟨package, hcolumn⟩ := Option.isSome_iff_exists.mp (db.package t hchild r hr)
  exact ⟨package, hcolumn, db.row_package t r hr package hcolumn⟩

end

/-! ## A restricted reader -/

theorem personalRows_iff : t.personalRows = true ↔ t = .assignments ∨ t = .permissionmatrix := by
  simp [TableKey.personalRows]

section

variable (hscoped : reader.unrestricted = false)
include hscoped

theorem livePredicate_personalRows (hpersonal : t.personalRows = true) :
    db.livePredicate reader t r = r.ownedBy t reader.userId := by
  rcases personalRows_iff.mp hpersonal with rfl | rfl <;>
    simp [Database.livePredicate, hscoped, LiveRow.ownedBy]

theorem livePredicate_scoped (hpersonal : t.personalRows = false) : db.livePredicate reader t r = (reader.hasModule t &&
    if t.packageChild then (column r.columns "goi_thau_id").any fun package =>
      db.grantsLive reader.userId package "goithau"
    else match t.assignedType with
      | none => true
      | some type => db.effectiveTarget reader type r.id) := by
  cases hmodule : reader.hasModule t <;>
    cases t <;> simp_all [Database.livePredicate, TableKey.personalRows, TableKey.packageChild,
      TableKey.assignedType, Database.effectiveTarget]

theorem canReadTable_scoped : reader.canReadTable t =
    if t.personalRows then reader.membershipRole.isSome else reader.hasModule t := by
  obtain ⟨hmanager, howner⟩ := Principal.scoped_iff.mp hscoped
  have hactive := Principal.isMember_of_scoped hscoped
  have hmodule := hasModule_eq hscoped t
  simp only [Principal.canReadTable, hmanager, howner, hactive, ← hmodule, Bool.false_eq_true, if_false]
  cases hmember : reader.membershipRole.isSome with
  | true => cases hpersonal : t.personalRows <;> simp_all [TableKey.personalRows]
  | false =>
    have hnone : reader.membershipRole = none := by simpa using hmember
    have hhidden : reader.hasModule t = false := by
      unfold Principal.hasModule
      cases t.toModule <;> simp [Principal.scopePermission, hnone]
    cases t.personalRows <;> simp [hhidden]

theorem batchReads_scoped_live (hr : r ∈ db.rows t) : db.batchReads reader t (r.item t) = db.livePredicate reader t r := by
  obtain ⟨hmanager, howner⟩ := Principal.scoped_iff.mp hscoped
  have htable := canReadTable_scoped hscoped (t := t)
  cases hpersonal : t.personalRows with
  | true =>
    rw [livePredicate_personalRows hscoped hpersonal]
    have hempId : ∃ user, column r.columns (if t = .permissionmatrix then "emp_id" else "id_nhan_vien") = some user := by
      apply Option.isSome_iff_exists.mp
      rcases personalRows_iff.mp hpersonal with rfl | rfl
      · exact db.assignee r hr
      · exact db.employee r hr
    obtain ⟨user, hcolumn⟩ := hempId
    have hitem : (r.item t).empId = .str user := column_eq_some.mp hcolumn
    have hown : t = .assignments ∨ t = .permissionmatrix := personalRows_iff.mp hpersonal
    simp only [Database.batchReads, hmanager, howner, hown, hitem, LiveRow.ownedBy, hcolumn,
      Bool.false_eq_true, if_false, if_true]
    by_cases hempty : user = "" <;> simp [Scalar.truthy, Scalar.text, hempty]
  | false =>
    have hown : ¬ (t = .assignments ∨ t = .permissionmatrix) := by
      rw [← personalRows_iff, hpersonal]
      simp
    rw [hpersonal] at htable
    rw [livePredicate_scoped hscoped hpersonal]
    cases hmodule : reader.hasModule t with
    | false => simp [Database.batchReads, hmanager, howner, hown, htable, hmodule]
    | true =>
      rw [batchReads_scoped hscoped hown (by simpa [hmodule] using htable), item_id_of_row hr]
      cases hchild : t.packageChild with
      | true => exact any_row_iff hr _
      | false => cases t.assignedType <;> simp

theorem canReadRecord_scoped_live (hr : r ∈ db.rows t)
    (hitem : item = r.item t ∨ item = .ofId r.id) : db.canReadRecord reader t item =
      if t.personalRows then reader.membershipRole.isSome else db.livePredicate reader t r := by
  obtain ⟨hmanager, howner⟩ := Principal.scoped_iff.mp hscoped
  have htable := canReadTable_scoped hscoped (t := t)
  have hid : idOf item.id = some r.id := by
    rcases hitem with rfl | rfl
    · exact item_id_of_row hr
    · exact (db.row_id t r hr).2
  have hclosed : reader.canReadTable t = false → db.canReadRecord reader t item = false := by
    intro hno
    simp [Database.canReadRecord, hmanager, howner, hno]
  cases hpersonal : t.personalRows with
  | true =>
    rw [hpersonal, if_pos rfl] at htable
    rw [if_pos rfl]
    cases hmember : reader.membershipRole.isSome with
    | false => exact hclosed (htable.trans hmember)
    | true =>
      rw [canReadRecord_scoped hscoped (htable.trans hmember)]
      rcases personalRows_iff.mp hpersonal with rfl | rfl <;>
        simp [TableKey.packageChild, TableKey.assignedType]
  | false =>
    rw [hpersonal, if_neg (by simp)] at htable
    rw [if_neg (by simp), livePredicate_scoped hscoped hpersonal]
    cases hmodule : reader.hasModule t with
    | false => simpa using hclosed (htable.trans hmodule)
    | true =>
      rw [canReadRecord_scoped hscoped (htable.trans hmodule), hid]
      cases hchild : t.packageChild with
      | false => cases t.assignedType <;> simp
      | true =>
        -- the child names its package, or its row does
        obtain ⟨package, hcolumn, hstored⟩ := exists_package hr hchild
        have hparent : db.parentOf t item = some package := by
          rcases hitem with rfl | rfl
          · exact parentOf_of_column hcolumn hstored
          have hpackage : idOf (r.columns.getValue "goi_thau_id") = some package := by
            rw [column_eq_some.mp hcolumn]
            exact hstored
          have hnone : idOf .none = none := rfl
          rw [Database.parentOf, hid]
          simp [ReadItem.ofId, hnone, Database.packageOfChild, find?_row hr, hpackage]
        simp [hparent, hcolumn, Database.assigned]

end

/-! ## Every reader -/

def StoredDatabase.NoIntruder (db : StoredDatabase) (reader : Principal) (t : TableKey) : Prop :=
  reader.isOrganizationManager = true → reader.personalScope = true → t.writeProtected = true → db.rows t = []

def StoredDatabase.OwnRowsOnly (db : StoredDatabase) (reader : Principal) (t : TableKey) : Prop :=
  reader.unrestricted = false → t.personalRows = true →
    ∀ r ∈ db.rows t, r.ownedBy t reader.userId = reader.membershipRole.isSome

theorem batchReads_unrestricted (hfree : reader.unrestricted = true) (item : ReadItem) :
    db.batchReads reader t item = db.canReadRecord reader t item := by
  cases hmanager : reader.isOrganizationManager with
  | true => simp [Database.batchReads, Database.canReadRecord, hmanager]
  | false =>
    have howner : reader.personalOwner = true := by simpa [Principal.unrestricted, hmanager] using hfree
    simp [Database.batchReads, Database.canReadRecord, hmanager, howner]

theorem canReadRecord_unrestricted (hfree : reader.unrestricted = true) (item : ReadItem) :
    db.canReadRecord reader t item = db.livePredicate reader t r ↔
      ¬ (reader.isOrganizationManager = true ∧ reader.personalScope = true ∧
        t.writeProtected = true) := by
  cases hmanager : reader.isOrganizationManager with
  | true =>
    cases hscope : reader.personalScope <;> cases hprotected : t.writeProtected <;>
      simp [Database.canReadRecord, Database.livePredicate, hmanager, hfree, hscope, hprotected]
  | false =>
    have howner : reader.personalOwner = true := by simpa [Principal.unrestricted, hmanager] using hfree
    simp [Database.canReadRecord, Database.livePredicate, hmanager, howner, hfree, reader.personal howner]

theorem batchReads_live (hintruder : db.NoIntruder reader t) (hr : r ∈ db.rows t) :
    db.batchReads reader t (r.item t) = db.livePredicate reader t r := by
  cases hscoped : reader.unrestricted with
  | false => exact batchReads_scoped_live hscoped hr
  | true =>
    rw [batchReads_unrestricted hscoped]
    apply (canReadRecord_unrestricted hscoped _).mpr
    rintro ⟨hmanager, hscope, hprotected⟩
    rw [hintruder hmanager hscope hprotected] at hr
    simp at hr

theorem canReadRecord_live (hintruder : db.NoIntruder reader t) (hown : db.OwnRowsOnly reader t)
    (hr : r ∈ db.rows t) (hitem : item = r.item t ∨ item = .ofId r.id) :
    db.canReadRecord reader t item = db.livePredicate reader t r := by
  cases hscoped : reader.unrestricted with
  | false =>
    rw [canReadRecord_scoped_live hscoped hr hitem]
    cases hpersonal : t.personalRows with
    | false => rfl
    | true =>
      rw [livePredicate_personalRows hscoped hpersonal]
      exact (hown hscoped hpersonal r hr).symm
  | true =>
    apply (canReadRecord_unrestricted hscoped _).mpr
    rintro ⟨hmanager, hscope, hprotected⟩
    rw [hintruder hmanager hscope hprotected] at hr
    simp at hr

/-- The read policies agree on a table: of every batch of its rows the batch policy keeps those the
query selects, and the policy for one record reads these, given as a record or by its id. -/
theorem read_policies_agree_iff (db : StoredDatabase) (reader : Principal) (t : TableKey) :
    (∀ batch : List LiveRow, (∀ r ∈ batch, r ∈ db.rows t) → db.filterItemsForRead reader t (batch.map fun r => r.item t) =
        (batch.filter (db.livePredicate reader t)).map (fun r => r.item t) ∧
      ∀ r ∈ batch, db.canReadRecord reader t (r.item t) = db.livePredicate reader t r ∧
        db.canReadRecord reader t (.ofId r.id) = db.livePredicate reader t r) ↔
    db.NoIntruder reader t ∧ db.OwnRowsOnly reader t := by
  constructor
  · intro hagree
    have hrow : ∀ r ∈ db.rows t, db.canReadRecord reader t (r.item t) =
        db.livePredicate reader t r := fun r hr => ((hagree _ fun r' h => h).2 r hr).1
    constructor
    · intro hmanager hscope hprotected
      apply eq_nil_iff_forall_not_mem.mpr
      intro r hr
      have hfree : reader.unrestricted = true := by simp [Principal.unrestricted, hmanager]
      exact (canReadRecord_unrestricted hfree _).mp (hrow r hr) ⟨hmanager, hscope, hprotected⟩
    · intro hscoped hpersonal r hr
      have heq := hrow r hr
      rw [canReadRecord_scoped_live hscoped hr (.inl rfl), if_pos hpersonal,
        livePredicate_personalRows hscoped hpersonal] at heq
      exact heq.symm
  · rintro ⟨hintruder, hown⟩ batch hbatch
    refine ⟨?_, fun r hr => ⟨?_, ?_⟩⟩
    · rw [filterItemsForRead_eq, filter_map]
      congr 1
      apply filter_congr
      intro r hr
      exact batchReads_live hintruder (hbatch r hr)
    · exact canReadRecord_live hintruder hown (hbatch r hr) (.inl rfl)
    · exact canReadRecord_live hintruder hown (hbatch r hr) (.inr rfl)

/-- An assignment of the package `p` to the employee `v`. -/
def othersAssignment : LiveRow :=
  ⟨"a", 2, Dict.ofList [("id", .str "a"), ("id_nhan_vien", .str "v"), ("id_muc_tieu", .str "p"),
    ("loai_doi_tuong", .str "goithau")]⟩

def othersAssignmentRows : TableKey → List LiveRow
  | .goithau => [⟨"p", 1, Dict.ofList [("id", .str "p")]⟩]
  | .assignments => [othersAssignment]
  | _ => []

theorem column_othersAssignmentRows (t : TableKey) : ∀ r ∈ othersAssignmentRows t, column r.columns "goi_thau_id" = none := by
  cases t <;> decide

def othersWorkspace : StoredDatabase where
  rows := othersAssignmentRows
  tombstones := []
  currentVersion := 2
  minAvailableVersion := 0
  nodup_ids t := by cases t <;> decide
  nodup_tombstones := by decide
  row_id t := by cases t <;> decide
  snapshot_id := by decide
  row_package t r hr id h := absurd h (by simp [column_othersAssignmentRows t r hr])
  snapshot_package := by decide
  assignee := by decide
  employee := by decide
  package t hchild r hr := by cases t <;> simp_all [TableKey.packageChild, othersAssignmentRows]

def employee : Reader where
  userId := "u"
  activeRole := some "employee"
  platformAdmin := false
  membershipRole := some "employee"
  personalScope := false
  personalOwner := false
  permission _ := "view"
  personal h := by simp at h
  admitted := .inr rfl

/-- The policy for one record lets the employee read the assignment of another one, which the
query does not select and the batch policy does not keep. -/
theorem others_assignment_readable :
    othersWorkspace.canReadRecord employee .assignments (othersAssignment.item .assignments) = true ∧
    othersWorkspace.livePredicate employee .assignments othersAssignment = false ∧
    othersWorkspace.filterItemsForRead employee .assignments [othersAssignment.item .assignments] = [] := by
  decide

end Bidding.Delta
