import Bidding.Delta.Deletion
import Bidding.Delta.Exact

/-!
# Whoever saw a record learns of its deletion

A batch of deletions keeps the evidence of access: the columns the policies look at are still in the row or in the snapshot
of its tombstone (`Remembers`). So what showed a row to a reader shows its tombstone.
-/

namespace Bidding.Delta

open Foundations List

def evidenceColumns : List String :=
  ["id_nhan_vien", "id_muc_tieu", "loai_doi_tuong", "emp_id", "goi_thau_id", "ke_hoach_id"]

def SameEvidence (record record' : Fields) : Prop :=
  ∀ name ∈ evidenceColumns, column record name = column record' name

theorem SameEvidence.refl (record : Fields) : SameEvidence record record := fun _ _ => rfl

theorem SameEvidence.trans {a b c : Fields} (hab : SameEvidence a b) (hbc : SameEvidence b c) :
    SameEvidence a c := fun name hname => (hab name hname).trans (hbc name hname)

theorem SameEvidence.grants {record record' : Fields} (h : SameEvidence record record')
    (user target type : String) : grants record user target type = grants record' user target type := by
  unfold Delta.grants
  rw [h "id_nhan_vien" (by decide), h "id_muc_tieu" (by decide), h "loai_doi_tuong" (by decide)]

theorem sameEvidence_archiveRow (r : LiveRow) (versioned : Bool) (now : String) (syncVersion : ℕ) :
    SameEvidence r.columns (Database.archiveRow r versioned now syncVersion).columns := by
  intro name hname
  rw [Database.column_archiveRow]
  revert name
  decide

theorem sameEvidence_archivedRecord (r : StoredRow) (now : String) :
    SameEvidence r.val.columns (Deleting.archivedRecord r now).val.columns := by
  intro name hname
  rw [show column (Deleting.archivedRecord r now).val.columns name = column r.val.columns name from
    column_setColumn (by revert name; decide)]

def Database.Knows (db : Database) (t : TableKey) (r : LiveRow) : Prop :=
  (∃ r' ∈ db.rows t, r'.id = r.id) ∨
    ∃ d ∈ db.tombstones, d.table = t ∧ d.recordId = r.id ∧ SameEvidence r.columns d.snapshot

def Database.Showed (start : Database) (t : TableKey) (r : LiveRow) : Prop :=
  ∃ r' ∈ start.rows t, r'.id = r.id ∧ SameEvidence r'.columns r.columns

/-- Since the start, no row went without a tombstone that shows what it showed, and no row came or
shows something else. -/
structure Remembers (start db : Database) : Prop where
  knows : ∀ t, ∀ r ∈ start.rows t, db.Knows t r
  showed : ∀ t, ∀ r ∈ db.rows t, start.Showed t r

variable {start db : Database} {t : TableKey} {r : LiveRow} {r' : LiveRow} {record : StoredRow} {d : Tombstone} {u : TableKey} {s : Deleting}

theorem Database.Showed.refl (hr : r ∈ start.rows t) : start.Showed t r :=
  ⟨r, hr, rfl, SameEvidence.refl _⟩

theorem Remembers.refl (db : Database) : Remembers db db where
  knows _ r hr := .inl ⟨r, hr, rfl⟩
  showed _ _ hr := .refl hr

theorem row_unique (hr : r ∈ db.rows t) (hr' : r' ∈ db.rows t) (h : r'.id = r.id) :
    r' = r := inj_on_of_nodup_map (db.nodup_ids t) hr' hr h

theorem Database.Showed.sameEvidence (h : start.Showed t r') (hr : r ∈ start.rows t)
    (hid : r'.id = r.id) : SameEvidence r.columns r'.columns := by
  obtain ⟨first, hfirst, hfirstId, hsame⟩ := h
  obtain rfl := row_unique hr hfirst (hfirstId.trans hid)
  exact hsame

/-! ## Statements -/

theorem mem_tombstones_putTombstone {version : ℕ}
    (hd : d ∈ db.tombstones) (hne : ¬ (d.table = t ∧ d.recordId = record.val.id)) :
    d ∈ (db.putTombstone t record version).tombstones :=
  mem_cons_of_mem _ (mem_filter.mpr ⟨hd, decide_eq_true hne⟩)

section

variable (h : Remembers start db)
include h

theorem Remembers.putTombstone
    (hrecord : start.Showed t record.val) (version : ℕ) : Remembers start (db.putTombstone t record version) where
  showed := h.showed
  knows u r hr := by
    rcases h.knows u r hr with hlive | ⟨d, hd, htable, hid, hsame⟩
    · exact .inl hlive
    right
    by_cases hkey : d.table = t ∧ d.recordId = record.val.id
    · obtain ⟨rfl, hrecordId⟩ := hkey
      subst htable
      exact ⟨_, mem_cons_self, rfl, hrecordId.symm.trans hid, hrecord.sameEvidence hr (hrecordId.symm.trans hid)⟩
    · exact ⟨d, mem_tombstones_putTombstone hd hkey, htable, hid, hsame⟩

variable (t : TableKey)

theorem Remembers.deleteRow (r : LiveRow) : Remembers start (db.deleteRow t r) := by
  unfold Database.deleteRow
  split
  case isFalse => exact h
  case isTrue hr =>
    have hrecord : start.Showed t r := h.showed t r hr
    constructor
    · intro u r' hr'
      by_cases hkey : u = t ∧ r'.id = r.id
      · obtain ⟨rfl, hid⟩ := hkey
        exact .inr ⟨_, mem_cons_self, rfl, hid.symm, hrecord.sameEvidence hr' hid.symm⟩
      rcases h.knows u r' hr' with ⟨live, hlive, hid⟩ | ⟨d, hd, htable, hid, hsame⟩
      · left
        refine ⟨live, ?_, hid⟩
        show live ∈ if u = t then (db.rows u).filter fun r' => r' ≠ r else db.rows u
        by_cases htable : u = t
        · have hne : live ≠ r := fun heq => hkey ⟨htable, by rw [← heq, hid]⟩
          rw [if_pos htable]
          exact mem_filter.mpr ⟨hlive, by simpa using hne⟩
        · rw [if_neg htable]
          exact hlive
      · right
        refine ⟨d, mem_tombstones_putTombstone hd ?_, htable, hid, hsame⟩
        rintro ⟨htable', hid'⟩
        exact hkey ⟨htable.symm.trans htable', hid.symm.trans hid'⟩
    · intro u r' hr'
      apply h.showed u r'
      have hmem : r' ∈ if u = t then (db.rows u).filter fun r' => r' ≠ r else db.rows u := hr'
      split at hmem
      · exact (mem_filter.mp hmem).1
      · exact hmem

theorem Remembers.deleteRows (rows : List (TableKey × LiveRow)) : Remembers start (db.deleteRows rows) := by
  induction rows generalizing db with
  | nil => exact h
  | cons e rest ih => exact ih (h.deleteRow e.1 e.2)

theorem Remembers.deleteAssignmentDependents (id : String) : Remembers start (db.deleteAssignmentDependents t id) := by
  unfold Database.deleteAssignmentDependents
  cases t.assignedType with
  | none => exact h
  | some type => exact h.deleteRows _

theorem Remembers.deleteRecord (r : LiveRow) : Remembers start (db.deleteRecord t r) := (h.deleteRow t r).deleteRows _

end

theorem mem_rows_archive {versioned : Bool} {now : String} {syncVersion : ℕ}
    : r' ∈ (db.archive t r versioned now syncVersion).rows u ↔
      ∃ r'' ∈ db.rows u, r' = if u = t ∧ r'' = r then Database.archiveRow r'' versioned now syncVersion else r'' := by
  by_cases htable : u = t
  · simp only [Database.archive, htable, if_true, mem_map, true_and]
    exact exists_congr fun r'' => and_congr_right fun _ => eq_comm
  · simp [Database.archive, htable]

theorem Remembers.archive (h : Remembers start db) (t : TableKey) (r : LiveRow) (versioned : Bool)
    (now : String) (syncVersion : ℕ) : Remembers start (db.archive t r versioned now syncVersion) where
  knows u first hfirst := by
    rcases h.knows u first hfirst with ⟨live, hlive, hid⟩ | hgone
    · refine .inl ⟨_, mem_rows_archive.mpr ⟨live, hlive, rfl⟩, ?_⟩
      split
      · exact (Database.archiveRow_id _ _ _ _).trans hid
      · exact hid
    · exact .inr hgone
  showed u r' hr' := by
    obtain ⟨live, hlive, rfl⟩ := mem_rows_archive.mp hr'
    obtain ⟨first, hfirst, hid, hsame⟩ := h.showed u live hlive
    split
    · exact ⟨first, hfirst, hid.trans (Database.archiveRow_id _ _ _ _).symm, hsame.trans (sameEvidence_archiveRow _ _ _ _)⟩
    · exact ⟨first, hfirst, hid, hsame⟩

/-- The tables remember the start, and the records the service holds show what they showed. -/
structure Deleting.Sound (start : Database) (s : Deleting) : Prop where
  remembers : Remembers start s.db
  records : ∀ t, ∀ record ∈ s.recordsByTable t, start.Showed t record.val

theorem Deleting.mem_dropAssignmentDependents {records : TableKey → List StoredRow}
    {id : String}
    (h : record ∈ Deleting.dropAssignmentDependents records t id u) : record ∈ records u := by
  unfold Deleting.dropAssignmentDependents at h
  cases htype : t.assignedType with
  | none => simpa [htype] using h
  | some type =>
    rw [htype] at h
    by_cases htable : u = .assignments
    · rw [htable] at h ⊢
      exact (mem_filter.mp h).1
    · simpa [htable] using h

theorem showed_archivedRecord (h : start.Showed t record.val) (now : String) :
    start.Showed t (Deleting.archivedRecord record now).val := by
  obtain ⟨first, hfirst, hid, hsame⟩ := h
  exact ⟨first, hfirst, hid, hsame.trans (sameEvidence_archivedRecord record now)⟩

theorem Deleting.Sound.carryOut (h : s.Sound start)
    (hrecord : record ∈ s.recordsByTable t) (now : String) (syncVersion : ℕ) (verdict : Verdict) :
    (s.carryOut now syncVersion t record verdict).Sound start := by
  have hshowed := h.records t record hrecord
  have hdependents := h.remembers.deleteAssignmentDependents t record.val.id
  cases verdict with
  | refused => exact h
  | archived =>
    simp only [Deleting.carryOut]
    split
    · split
      · exact h
      constructor
      · exact (hdependents.archive t _ _ now syncVersion).putTombstone (showed_archivedRecord hshowed now) syncVersion
      · intro u record' hrecord'
        obtain ⟨held, hheld, rfl⟩ := mem_map.mp hrecord'
        have hheldShowed := h.records u held (Deleting.mem_dropAssignmentDependents hheld)
        split
        · exact showed_archivedRecord hheldShowed now
        · exact hheldShowed
    · exact h
  | deleted =>
    simp only [Deleting.carryOut]
    split
    · exact h
    constructor
    · exact (hdependents.deleteRecord t _).putTombstone hshowed syncVersion
    · intro u record' hrecord'
      exact h.records u record' (Deleting.mem_dropAssignmentDependents (mem_filter.mp hrecord').1)

/-- A deletion forgets nothing that the tables showed at the start. -/
theorem Deleting.Sound.step (h : s.Sound start) (now : String) (syncVersion : ℕ)
    (deletion : Deletion) (verdict : Verdict) : (s.step now syncVersion deletion verdict).Sound start := by
  unfold Deleting.step
  split
  · exact h
  split
  · exact h
  rename_i hfind
  split
  · exact h
  · split
    · exact h
    · exact h.carryOut (mem_of_find?_eq_some hfind) now syncVersion verdict

theorem remembers_applySyncDeletions (db : Database) (now : String) (syncVersion : ℕ)
    (batch : List (Deletion × Verdict)) : Remembers db (db.applySyncDeletions now syncVersion batch) := by
  have hrun : ∀ (rest : List (Deletion × Verdict)) (s : Deleting), s.Sound db →
      (rest.foldl (fun (s : Deleting) e => s.step now syncVersion e.1 e.2) s).Sound db := by
    intro rest
    induction rest with
    | nil => exact fun s h => h
    | cons e rest ih => exact fun s h => ih _ (h.step now syncVersion e.1 e.2)
  refine (hrun batch ⟨db, db.fetchRecords batch⟩ ⟨Remembers.refl db, ?_⟩).remembers
  intro t record hrecord
  obtain ⟨r, -, rfl⟩ := mem_map.mp (mem_filter.mp hrecord).1
  exact .refl r.property

/-! ## The evidence of access -/

theorem Remembers.assignmentEvidence (h : Remembers start db) {user target type : String}
    (hgrants : start.grantsLive user target type = true) : db.assignmentEvidence user target type = true := by
  obtain ⟨r, hr, hgrant⟩ := any_eq_true.mp hgrants
  unfold Database.assignmentEvidence
  rw [Bool.or_eq_true]
  rcases h.knows .assignments r hr with ⟨live, hlive, hid⟩ | ⟨d, hd, htable, hid, hsame⟩
  · left
    have hsame := (h.showed .assignments live hlive).sameEvidence hr hid
    exact any_eq_true.mpr ⟨live, hlive, by rwa [← hsame.grants]⟩
  · right
    exact any_eq_true.mpr ⟨d, hd, by simp [htable, ← hsame.grants, hgrant]⟩

theorem Remembers.packageEvidence (h : Remembers start db) {user plan : String} (hpackage : start.anyPackageOf plan
      (fun package => start.grantsLive user package "goithau") = true) :
    ((db.anyPackageOf plan fun package => db.assignmentEvidence user package "goithau")
      || db.tombstones.any fun package => package.table = .goithau && column package.snapshot "ke_hoach_id" = some plan
          && db.assignmentEvidence user package.recordId "goithau") = true := by
  obtain ⟨r, hr, hboth⟩ := any_eq_true.mp hpackage
  obtain ⟨hplan, hgrants⟩ := (Bool.and_eq_true _ _).mp hboth
  have hevidence := h.assignmentEvidence hgrants
  rw [Bool.or_eq_true]
  rcases h.knows .goithau r hr with ⟨live, hlive, hid⟩ | ⟨d, hd, htable, hid, hsame⟩
  · left
    have hsame := (h.showed .goithau live hlive).sameEvidence hr hid
    rw [hsame "ke_hoach_id" (by decide)] at hplan
    exact any_eq_true.mpr ⟨live, hlive, by simp [of_decide_eq_true hplan, hid, hevidence]⟩
  · right
    rw [hsame "ke_hoach_id" (by decide)] at hplan
    exact any_eq_true.mpr ⟨d, hd, by simp [of_decide_eq_true hplan, htable, hid, hevidence]⟩

theorem Remembers.deletionPredicate (h : Remembers start db) {reader : Principal} (hr : r ∈ start.rows t)
    (hlive : start.livePredicate reader t r = true) (htable : d.table = t)
    (hid : d.recordId = r.id) (hsame : SameEvidence r.columns d.snapshot) : db.deletionPredicate reader d = true := by
  subst htable
  have hnurse := hsame "id_nhan_vien" (by decide)
  have hemp := hsame "emp_id" (by decide)
  have hpackageId := hsame "goi_thau_id" (by decide)
  cases hscoped : reader.unrestricted with
  | true => simpa [Database.livePredicate, Database.deletionPredicate, hscoped] using hlive
  | false =>
    by_cases hassignments : d.table = .assignments
    · simpa [Database.livePredicate, Database.deletionPredicate, hscoped, hassignments, hnurse] using hlive
    by_cases hmatrix : d.table = .permissionmatrix
    · simpa [Database.livePredicate, Database.deletionPredicate, hscoped, hmatrix, hemp] using hlive
    have hmodule : reader.hasModule d.table = true := by
      by_contra hno
      simp [Database.livePredicate, hscoped, hassignments, hmatrix, hno] at hlive
    simp only [Database.livePredicate, Database.deletionPredicate, hscoped, hassignments, hmatrix,
      hmodule, Bool.not_true, Bool.false_and, Bool.false_eq_true, if_false] at hlive ⊢
    by_cases hplan : d.table = .kehoach
    · simp only [hplan, if_true, Bool.or_eq_true] at hlive ⊢
      rcases hlive with hdirect | hpackage
      · exact .inl (.inl (hid ▸ h.assignmentEvidence hdirect))
      have hevidence := h.packageEvidence hpackage
      rw [Bool.or_eq_true, ← hid] at hevidence
      rcases hevidence with hlivePackage | hdeletedPackage
      · exact .inl (.inr hlivePackage)
      · exact .inr hdeletedPackage
    · rw [if_neg hplan] at hlive ⊢
      cases hchild : d.table.packageChild with
      | true =>
        simp only [hchild, if_true] at hlive ⊢
        obtain ⟨package, hcolumn, hgrants⟩ := (Option.any_eq_true _ _).mp hlive
        rw [← hpackageId]
        exact (Option.any_eq_true _ _).mpr ⟨package, hcolumn, h.assignmentEvidence hgrants⟩
      | false =>
        simp only [hchild, Bool.false_eq_true, if_false] at hlive ⊢
        cases htype : d.table.assignedType with
        | none => rfl
        | some type =>
          rw [htype] at hlive
          rw [hid]
          exact h.assignmentEvidence hlive

/-- Whoever saw a row sees its tombstone, once a batch of deletions has taken the row away, in whatever order the record, its
parents and the assignments are deleted, and whether the service, a foreign key or a trigger wrote the tombstone. -/
theorem deletion_reaches_readers (db : Database) (now : String) (syncVersion : ℕ)
    (batch : List (Deletion × Verdict)) (reader : Principal) (t : TableKey) (r : LiveRow)
    (hr : r ∈ db.rows t) (hlive : db.livePredicate reader t r = true)
    (hgone : ∀ r' ∈ (db.applySyncDeletions now syncVersion batch).rows t, r'.id ≠ r.id) :
    ∃ d ∈ (db.applySyncDeletions now syncVersion batch).tombstones, d.table = t ∧ d.recordId = r.id ∧
      (db.applySyncDeletions now syncVersion batch).deletionPredicate reader d = true := by
  have hremembers := remembers_applySyncDeletions db now syncVersion batch
  rcases hremembers.knows t r hr with ⟨r', hr', hid⟩ | ⟨d, hd, htable, hid, hsame⟩
  · exact absurd hid (hgone r' hr')
  · exact ⟨d, hd, htable, hid, hremembers.deletionPredicate hr hlive htable hid hsame⟩

theorem deletion_reaches_readers_sample :
    ∃ d ∈ (goodsDeleted.applySyncDeletions "now" 6 [(⟨.goithau, .str "p", 1⟩, .deleted)]).tombstones,
      d.table = .goithau ∧ d.recordId = "p" ∧
      (goodsDeleted.applySyncDeletions "now" 6 [(⟨.goithau, .str "p", 1⟩, .deleted)]).deletionPredicate
        assignedEmployee d = true :=
  deletion_reaches_readers goodsDeleted "now" 6 [(⟨.goithau, .str "p", 1⟩, .deleted)] assignedEmployee
    .goithau ⟨"p", 1, Dict.ofList [("id", .str "p")]⟩ (by decide) (by decide) (by decide)

end Bidding.Delta
