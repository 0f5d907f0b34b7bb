import Bidding.History.Batch
import Bidding.Versions.Latest

/-!
# History is frozen

A plan version that is not the latest keeps its row, its packages and what belongs to them through every
batch whose items name the parents their rows have: the check asks about the parent an item names, and
only without one about the parent that is stored.
-/

namespace Bidding.History

open Foundations Versions List
open Option hiding all_eq_true mem_map

variable {s s' : Store} {b : SyncBatch} {h : String}

def Historical (s : Store) (h : String) : Prop := ∃ r, s.plans.find? h = some r ∧ r.isLatest = false

def PackageOf (s : Store) (h packageId : String) : Prop :=
  ∃ r, s.packages.find? packageId = some r ∧ r.keHoachId = some h

def SameButFlag (r r' : VersionRow) : Prop := r' = { r with isLatest := r'.isLatest, updatedAt := r'.updatedAt }

/-- The plan version, its packages and the rows that belong to them are the same in both stores. -/
structure Frozen (s s' : Store) (h : String) : Prop where
  plan : ∀ r, s.plans.find? h = some r → ∃ r', s'.plans.find? h = some r' ∧ SameButFlag r r'
  total : s'.tongMucDauTu.get? h = s.tongMucDauTu.get? h
  packages : ∀ r : VersionRow, r.keHoachId = some h → (r ∈ s.packages.list ↔ r ∈ s'.packages.list)
  owned : ∀ t id row packageId, PackageOf s h packageId → row.package = some packageId →
    ((s.owned t).get? id = some row ↔ (s'.owned t).get? id = some row)

theorem SameButFlag.refl (r : VersionRow) : SameButFlag r r := rfl

theorem SameButFlag.trans {r r' r'' : VersionRow} (h : SameButFlag r r') (h' : SameButFlag r' r'') : SameButFlag r r'' := by
  unfold SameButFlag at *
  rw [h', h]

theorem Frozen.refl (s : Store) (h : String) : Frozen s s h :=
  ⟨fun r hr => ⟨r, hr, .refl r⟩, rfl, fun _ _ => Iff.rfl, fun _ _ _ _ _ _ => Iff.rfl⟩

theorem Frozen.packageOf_iff (hf : Frozen s s' h) {packageId : String} :
    PackageOf s h packageId ↔ PackageOf s' h packageId := by
  unfold PackageOf
  refine exists_congr fun r => ?_
  simp only [find?_eq_some]
  refine ⟨fun hr => ?_, fun hr => ?_⟩
  · exact ⟨⟨(hf.packages r hr.2).mp hr.1.1, hr.1.2⟩, hr.2⟩
  · exact ⟨⟨(hf.packages r hr.2).mpr hr.1.1, hr.1.2⟩, hr.2⟩

theorem Frozen.trans {s'' : Store} (hf : Frozen s s' h) (hf' : Frozen s' s'' h) : Frozen s s'' h := by
  refine ⟨fun r hr => ?_, hf'.total.trans hf.total, fun r hr => (hf.packages r hr).trans (hf'.packages r hr),
    fun t id row packageId hpackage hrow => (hf.owned t id row packageId hpackage hrow).trans
      (hf'.owned t id row packageId (hf.packageOf_iff.mp hpackage) hrow)⟩
  obtain ⟨r', hr', hsame⟩ := hf.plan r hr
  obtain ⟨r'', hr'', hsame'⟩ := hf'.plan r' hr'
  exact ⟨r'', hr'', hsame.trans hsame'⟩

def currentPackage (s : Store) (item : SyncItem) : Option VersionRow :=
  (item.recordId .goiThau).bind s.packages.find?

def NamesPlan (s : Store) (h : String) (item : SyncItem) : Prop :=
  ((currentPackage s item).bind VersionRow.keHoachId = some h ∨ idOf (item.planValue .goiThau) = some h) →
    (item.recordId .goiThau).isSome = true ∧
      (packagePlan item (currentPackage s item)).or ((currentPackage s item).bind VersionRow.keHoachId) = some h

instance (s : Store) (h : String) (item : SyncItem) : Decidable (NamesPlan s h item) := inferInstanceAs (Decidable (_ → _))

/-- An item of a row that belongs to a package, or gets to, names that package; a blank package id is
refused by its foreign key. -/
def NamesPackage (s : Store) (t : OwnedTable) (packageId : String) (item : SyncItem) : Prop :=
  ∀ row, ownedRow t item (s.currentOwned t item) = some row →
    (t = .phanCongNhanSu → item.unresolved = false) → (t ≠ .phanCongNhanSu → row.ownerId ≠ "") →
    ((s.currentOwned t item).bind OwnedRow.package = some packageId ∨ row.package = some packageId) →
      ownerPackage t item (s.currentOwned t item) = some packageId

/-- No item of the batch takes a row out of a historical plan version, or into one, past the check. -/
structure NamesParents (s : Store) (b : SyncBatch) : Prop where
  packages : ∀ h, Historical s h → ∀ item ∈ b.packages, NamesPlan s h item
  owned : ∀ h, Historical s h → ∀ packageId, PackageOf s h packageId → ∀ t, ∀ item ∈ b.owned t, NamesPackage s t packageId item

def StoredIds (r : VersionRow) : Prop := IsStoredId r.id ∧ ∀ plan, r.keHoachId = some plan → IsStoredId plan

/-- Ids are as the server stores them. -/
structure WellFormed (s : Store) : Prop where
  plans : ∀ r ∈ s.plans.list, StoredIds r
  packages : ∀ r ∈ s.packages.list, StoredIds r

theorem Historical.ne_empty (hs : WellFormed s) (hh : Historical s h) : h ≠ "" := by
  obtain ⟨r, hr, -⟩ := hh
  obtain ⟨hmem, rfl⟩ := find?_eq_some.mp hr
  exact (hs.plans r hmem).1.ne_empty

section Rows

variable {t : VersionedTable} {rows rows' : Rows t} {id : String} {g : VersionRow → VersionRow} {r : VersionRow}

theorem find?_eq_none : rows.find? id = none ↔ ∀ r ∈ rows.list, r.id ≠ id := by simp [Rows.find?]

theorem find?_update_of_ne {id' : String} (hg : ∀ r, (g r).id = r.id)
    (hu : rows.update id g = some rows') (hne : id' ≠ id) : rows'.find? id' = rows.find? id' := by
  have hlist := checked_eq_some.mp hu
  refine Option.ext fun r => ?_
  rw [find?_eq_some, find?_eq_some, hlist, mem_map]
  constructor
  · rintro ⟨⟨o, ho, rfl⟩, hid⟩
    by_cases hoid : o.id = id
    · rw [if_pos hoid, hg, hoid] at hid
      exact absurd hid.symm hne
    · rw [if_neg hoid] at hid ⊢
      exact ⟨ho, hid⟩
  · rintro ⟨hr, rfl⟩
    exact ⟨⟨r, hr, if_neg hne⟩, rfl⟩

theorem find?_update_self (hg : ∀ r, (g r).id = r.id)
    (hu : rows.update id g = some rows') (hr : rows.find? id = some r) : rows'.find? id = some (g r) := by
  obtain ⟨hmem, hid⟩ := find?_eq_some.mp hr
  rw [find?_eq_some, checked_eq_some.mp hu]
  exact ⟨mem_map.mpr ⟨r, hmem, if_pos hid⟩, (hg r).trans hid⟩

@[simp] theorem id_setLineage (r : VersionRow) : (setLineage r).id = r.id := by
  unfold setLineage
  split
  · split <;> rfl
  · rfl

@[simp] theorem keHoachId_setLineage (r : VersionRow) : (setLineage r).keHoachId = r.keHoachId := by
  unfold setLineage
  split
  · split <;> rfl
  · rfl

theorem find?_of_insert (hi : rows.insert r = some rows') :
    rows.find? r.id = none ∧ rows'.find? r.id = some (setLineage r) := by
  have hlist := checked_eq_some.mp hi
  have hnodup := rows'.keys.id
  rw [hlist, map_append, nodup_append] at hnodup
  refine ⟨find?_eq_none.mpr fun o ho hid => ?_, ?_⟩
  · exact hnodup.2.2 o.id (mem_map_of_mem ho) r.id (by simp) hid
  · rw [find?_eq_some, hlist]
    exact ⟨mem_append_right _ (mem_singleton.mpr rfl), id_setLineage r⟩

theorem find?_insert_of_ne (hi : rows.insert r = some rows') (hne : id ≠ r.id) : rows'.find? id = rows.find? id := by
  refine Option.ext fun o => ?_
  rw [find?_eq_some, find?_eq_some, checked_eq_some.mp hi, mem_append, mem_singleton]
  constructor
  · rintro ⟨ho | rfl, hid⟩
    · exact ⟨ho, hid⟩
    · exact absurd hid.symm (by simpa using hne)
  · rintro ⟨ho, hid⟩
    exact ⟨.inl ho, hid⟩

end Rows

/-! ## The context -/

theorem incomingPackagePlans_append (pre post : List SyncItem) :
    incomingPackagePlans s (pre ++ post) = post.foldl (fun plans item =>
      match item.recordId .goiThau with
      | none => plans
      | some packageId =>
        match packagePlan item (s.packages.find? packageId) with
        | some planId => plans.set packageId planId
        | none => plans) (incomingPackagePlans s pre) := foldl_append

theorem get?_incoming_concat (pre : List SyncItem) (item : SyncItem) (packageId : String) :
    (incomingPackagePlans s (pre ++ [item])).get? packageId = if item.recordId .goiThau = some packageId then
        (packagePlan item (s.packages.find? packageId)).or ((incomingPackagePlans s pre).get? packageId)
      else (incomingPackagePlans s pre).get? packageId := by
  rw [incomingPackagePlans_append, foldl_cons, foldl_nil]
  cases hid : item.recordId .goiThau with
  | none => simp
  | some id =>
    simp only [some.injEq]
    by_cases hsame : id = packageId
    · subst hsame
      rw [if_pos rfl]
      cases packagePlan item (s.packages.find? id) <;> simp
    · rw [if_neg hsame]
      cases packagePlan item (s.packages.find? id) with
      | none => rfl
      | some plan => exact Dict.get?_set_of_ne _ _ (Ne.symm hsame)

variable {packageId : String}

theorem get?_incoming_of_forall_ne (pre : List SyncItem) {post : List SyncItem}
    (hpost : ∀ item ∈ post, item.recordId .goiThau ≠ some packageId) :
    (incomingPackagePlans s (pre ++ post)).get? packageId = (incomingPackagePlans s pre).get? packageId := by
  induction post using List.reverseRecOn with
  | nil => rw [append_nil]
  | append_singleton post item ih =>
    rw [← append_assoc, get?_incoming_concat, if_neg (hpost item (by simp))]
    exact ih fun x hx => hpost x (by simp [hx])

theorem exists_item_of_incoming {items : List SyncItem} {planId : String}
    (hget : (incomingPackagePlans s items).get? packageId = some planId) :
    ∃ item ∈ items, item.recordId .goiThau = some packageId ∧
      packagePlan item (s.packages.find? packageId) = some planId := by
  induction items using List.reverseRecOn with
  | nil => cases hget
  | append_singleton items item ih =>
    rw [get?_incoming_concat] at hget
    split at hget
    · rename_i hid
      cases hplan : packagePlan item (s.packages.find? packageId) with
      | some plan =>
        rw [hplan] at hget
        exact ⟨item, by simp, hid, hplan.trans hget⟩
      | none =>
        rw [hplan, none_or] at hget
        obtain ⟨other, hother, h⟩ := ih hget
        exact ⟨other, by simp [hother], h⟩
    · obtain ⟨other, hother, h⟩ := ih hget
      exact ⟨other, by simp [hother], h⟩

theorem get?_packagePlanById (hid : packageId ∈ batchPackageIds s b) :
    (buildContext s b).packagePlanById.get? packageId = ((incomingPackagePlans s b.packages).get? packageId).or
        ((s.packages.find? packageId).map fun row => row.keHoachId.getD "None") := by
  unfold buildContext
  dsimp only
  rw [Dict.get?_spread, Dict.get?_ofList_filterMap]
  cases hincoming : (incomingPackagePlans s b.packages).get? packageId with
  | some planId => simp [Dict.contains, hincoming]
  | none => simp [Dict.contains, hincoming, hid]

theorem get?_incomingPlans (items : List SyncItem) (planId : String) : (incomingPlans s items).get? planId = none ∨
    ∃ item, (incomingPlans s items).get? planId = some (incomingPlanIsLatest item (s.plans.find? planId)) := by
  induction items using List.reverseRecOn with
  | nil => exact .inl rfl
  | append_singleton items item ih =>
    unfold incomingPlans at ih ⊢
    rw [foldl_append, foldl_cons, foldl_nil]
    cases hid : item.recordId .keHoachLcnt with
    | none => exact ih
    | some id =>
      by_cases hsame : id = planId
      · subst hsame
        exact .inr ⟨item, Dict.get?_set_self _ _ _⟩
      · dsimp only
        rw [Dict.get?_set_of_ne _ _ (Ne.symm hsame)]
        exact ih

theorem planIsLatest_eq_false (hh : Historical s h) : ((buildContext s b).planIsLatestById.get? h).getD false = false := by
  obtain ⟨r, hr, hlatest⟩ := hh
  unfold buildContext
  dsimp only
  rw [Dict.get?_spread, Dict.get?_ofList_filterMap]
  split
  · simp [hr, hlatest]
  · rcases get?_incomingPlans (s := s) b.plans h with hnone | ⟨item, hitem⟩
    · simp [hnone]
    · simp [hitem, hr, incomingPlanIsLatest, hlatest]

theorem not_packageIsMutable (hs : WellFormed s) (hh : Historical s h)
    (hplan : (buildContext s b).packagePlanById.get? packageId = some h) :
    (buildContext s b).packageIsMutable (some packageId) = false := by
  unfold AggregateMutabilityContext.packageIsMutable
  rw [bind_some, hplan]
  simp [hh.ne_empty hs, planIsLatest_eq_false hh]

theorem mem_batchPackageIds_of_package {item : SyncItem} (hitem : item ∈ b.packages)
    (hid : item.recordId .goiThau = some packageId) : packageId ∈ batchPackageIds s b :=
  mem_append_left _ (mem_filterMap.mpr ⟨item, hitem, hid⟩)

theorem OwnedTable.mem_all (t : OwnedTable) : t ∈ OwnedTable.all := by cases t <;> decide

theorem mem_batchPackageIds_of_owned {t : OwnedTable} {item : SyncItem} (hitem : item ∈ b.owned t)
    (hid : ownerPackage t item (s.currentOwned t item) = some packageId) : packageId ∈ batchPackageIds s b :=
  mem_append_right _ (mem_flatMap.mpr ⟨t, t.mem_all, mem_filterMap.mpr ⟨item, hitem, hid⟩⟩)

theorem get?_packagePlanById_of_packageOf (hb : NamesParents s b) (hh : Historical s h)
    (hpackage : PackageOf s h packageId) (hid : packageId ∈ batchPackageIds s b) :
    (buildContext s b).packagePlanById.get? packageId = some h := by
  obtain ⟨r, hr, hplan⟩ := hpackage
  rw [get?_packagePlanById hid, hr]
  cases hincoming : (incomingPackagePlans s b.packages).get? packageId with
  | none => simp [hplan]
  | some planId =>
    obtain ⟨item, hitem, hrecord, hnamed⟩ := exists_item_of_incoming hincoming
    have hcurrent : currentPackage s item = some r := by rw [currentPackage, hrecord, bind_some, hr]
    have hnames := (hb.packages h hh item hitem (.inl (by rw [hcurrent]; exact hplan))).2
    rw [hcurrent, ← hr, hnamed, some_or] at hnames
    rw [hnames, some_or]

section Versioned

variable {t : VersionedTable} {rows rows' : Rows t} {now : ℕ} {fails missing : Option VersionRow → Bool}
  {item : SyncItem} {data : RowData}

theorem writeVersioned_version {stored : VersionRow} {written : Option (Rows t)}
    (hw : writeVersioned now fails missing item data rows = some written)
    (hstored : (item.recordId t).bind rows.find? = some stored) : item.expectedVersion = some stored.rowVersion := by
  unfold writeVersioned at hw
  rw [hstored] at hw
  cases hexpected : item.expectedVersion with
  | none => simp [hexpected] at hw
  | some expected =>
    rw [hexpected] at hw
    dsimp only at hw
    split at hw
    · cases hw
    · rename_i hcond
      simp only [Bool.or_eq_true, decide_eq_true_eq, not_or, not_not] at hcond
      rw [hcond.1.1]

theorem writeVersioned_spec (hw : writeVersioned now fails missing item data rows = some (some rows')) :
    (∃ stored, (item.recordId t).bind rows.find? = some stored ∧
      rows.update data.id (updatedRow now data stored.rowVersion) = some rows') ∨
    ((item.recordId t).bind rows.find? = none ∧ rows.insert (insertedRow now data) = some rows') := by
  have horphan : ∀ (o : Option VersionRow) (w : Rows t),
      (if missing o then if t.isPackage then some none else none else some (some w)) = some (some rows') → w = rows' := by
    intro o w ho
    split at ho
    · split at ho <;> cases ho
    · exact some.inj (some.inj ho)
  cases hstored : (item.recordId t).bind rows.find? with
  | some stored =>
    have hversion := writeVersioned_version hw hstored
    unfold writeVersioned at hw
    rw [hstored, hversion] at hw
    dsimp only at hw
    split at hw
    · cases hw
    · obtain ⟨w, hupdate, hrest⟩ := bind_eq_some_iff.mp hw
      exact .inl ⟨stored, rfl, horphan _ w hrest ▸ hupdate⟩
  | none =>
    unfold writeVersioned at hw
    rw [hstored] at hw
    dsimp only at hw
    split at hw
    · cases hw
    · obtain ⟨w, hinsert, hrest⟩ := bind_eq_some_iff.mp hw
      exact .inr ⟨rfl, horphan _ w hrest ▸ hinsert⟩

@[simp] theorem id_serialize (item : SyncItem) (previous : Option VersionRow) :
    ((item.write t).serialize previous).id = (item.recordId t).getD item.generatedId := rfl

@[simp] theorem id_updatedRow (data : RowData) (expected : ℕ) (r : VersionRow) :
    (updatedRow now data expected r).id = r.id := rfl

variable {previous : Option VersionRow}

theorem find?_writeVersioned {id : String} (hid : id = (item.recordId t).getD item.generatedId)
    (hw : writeVersioned now fails missing item ((item.write t).serialize previous) rows = some (some rows')) :
    (∀ other, other ≠ id → rows'.find? other = rows.find? other) ∧
      ∃ r, rows'.find? id = some r ∧ (rows.find? id = none ∨
        ∃ stored, (item.recordId t).bind rows.find? = some stored ∧ rows.find? id = some stored ∧
          r.rowVersion = stored.rowVersion + 1) := by
  subst hid
  rcases writeVersioned_spec hw with ⟨stored, hstored, hupdate⟩ | ⟨-, hinsert⟩
  · obtain ⟨recordId, hrecord, hfind⟩ := bind_eq_some_iff.mp hstored
    rw [id_serialize] at hupdate
    refine ⟨fun other hne => find?_update_of_ne (id_updatedRow _ _) hupdate hne, ?_⟩
    rw [hrecord, getD_some] at hupdate ⊢
    exact ⟨_, find?_update_self (id_updatedRow _ _) hupdate hfind, .inr ⟨stored, by rw [bind_some]; exact hfind, hfind, rfl⟩⟩
  · obtain ⟨hnone, hsome⟩ := find?_of_insert hinsert
    exact ⟨fun other hne => find?_insert_of_ne hinsert hne, _, hsome, .inl hnone⟩

section

variable (hw : writeVersioned now fails missing item ((item.write t).serialize previous) rows = some (some rows'))
include hw

theorem find?_writeVersioned_of_ne
    {id : String} (hid : rows.find? id ≠ none) (hne : item.recordId t ≠ some id) :
    rows'.find? id = rows.find? id := by
  obtain ⟨hothers, r, -, hwritten⟩ := find?_writeVersioned rfl hw
  refine hothers id fun heq => ?_
  rcases hwritten with hnone | ⟨stored, hstored, -⟩
  · exact hid (heq ▸ hnone)
  · obtain ⟨recordId, hrecord, -⟩ := bind_eq_some_iff.mp hstored
    rw [hrecord, getD_some] at heq
    exact hne (heq ▸ hrecord)

theorem storedIds_writeVersioned (hrows : ∀ r ∈ rows.list, StoredIds r) : ∀ r ∈ rows'.list, StoredIds r := by
  obtain ⟨hid, -, hplan⟩ := serialize_clean (item.write t) previous
  intro r hr
  rcases writeVersioned_spec hw with ⟨stored, hstored, hupdate⟩ | ⟨-, hinsert⟩
  · rcases mem_update hupdate hr with hold | ⟨o, ho, rfl⟩
    · exact hrows r hold
    obtain ⟨hmem, -⟩ := find?_eq_some.mp ho
    refine ⟨(hrows o hmem).1, fun plan hp => ?_⟩
    rcases or_eq_some_iff.mp hp with hnew | ⟨-, hold⟩
    · exact hplan plan hnew
    · exact (hrows o hmem).2 plan hold
  · rw [checked_eq_some.mp hinsert, mem_append, mem_singleton] at hr
    rcases hr with hold | rfl
    · exact hrows r hold
    · refine ⟨by rwa [id_setLineage], fun plan hp => hplan plan ?_⟩
      rwa [keHoachId_setLineage] at hp

end

end Versioned

/-! ## What a batch keeps on its way -/

/-- The plan version is frozen so far, and nothing of it is noted for the recalculations. -/
structure Kept (s : Store) (h : String) (p : Progress) : Prop where
  wellFormed : WellFormed p.store
  frozen : Frozen s p.store h
  families : ∀ f ∈ p.packageFamilies, f.2 ≠ h
  planIds : h ∉ p.planIds

def RaisedPackage (s : Store) (p : Progress) (id : String) : Prop :=
  ∃ r, p.store.packages.find? id = some r ∧ ∀ r₀, s.packages.find? id = some r₀ → r.rowVersion ≠ r₀.rowVersion

def Raised (s : Store) (p : Progress) : Prop :=
  ∀ id, p.store.packages.find? id = s.packages.find? id ∨ RaisedPackage s p id

variable {p p' : Progress} {item : SyncItem} {plan : Option String} {row : OwnedRow} {collation : Collation} {affected : List Family}

theorem recordId_ne_of_validates (hh : Historical s h) (hv : validatesRecord s.plans item = true) :
    item.recordId .keHoachLcnt ≠ some h := by
  intro hid
  obtain ⟨r, hr, hlatest⟩ := hh
  unfold validatesRecord at hv
  rw [hid] at hv
  simp [hr, hlatest, VersionedTable.immutableHistory] at hv

/-- A plan row that is written leaves the rows of a historical plan as they are. -/
theorem writePlan_kept (hh : Historical s h) (hv : validatesRecord s.plans item = true) {now : ℕ}
    (hk : Kept s h p) (hw : writePlan s now p item = some p') : Kept s h p' := by
  unfold writePlan at hw
  obtain ⟨written, hwrite, rfl⟩ := map_eq_some_iff.mp hw
  cases written with
  | none => exact hk
  | some rows =>
    dsimp only
    have hne := recordId_ne_of_validates hh hv
    obtain ⟨r, hr, -⟩ := hh
    obtain ⟨r', hr', hsame⟩ := hk.frozen.plan r hr
    have hpresent : p.store.plans.find? h ≠ none := by simp [hr']
    have hid : ((item.write .keHoachLcnt).serialize ((item.recordId .keHoachLcnt).bind s.plans.find?)).id ≠ h := by
      rw [id_serialize]
      cases hrecord : item.recordId .keHoachLcnt with
      | some id => exact fun heq => hne (by rw [hrecord]; exact congrArg some heq)
      | none =>
        -- a drawn id is not that of a stored row
        rw [hrecord] at hwrite
        rcases writeVersioned_spec hwrite with ⟨stored, hstored, -⟩ | ⟨-, hinsert⟩
        · rw [hrecord] at hstored
          cases hstored
        intro heq
        refine hpresent ?_
        have hnone := (find?_of_insert hinsert).1
        rw [show (insertedRow now ((item.write .keHoachLcnt).serialize _)).id = item.generatedId by
          simp [insertedRow, hrecord]] at hnone
        exact heq ▸ hnone
    refine ⟨⟨storedIds_writeVersioned hwrite hk.wellFormed.plans, hk.wellFormed.packages⟩,
      ⟨fun o ho => ?_, ?_, hk.frozen.packages, hk.frozen.owned⟩, hk.families, ?_⟩
    · rw [find?_writeVersioned_of_ne hwrite hpresent hne]
      exact hk.frozen.plan o ho
    · cases item.tongMucDauTu with
      | none => exact hk.frozen.total
      | some total =>
        refine Eq.trans (Dict.get?_set_of_ne p.store.tongMucDauTu total ?_) hk.frozen.total
        exact Ne.symm hid
    · exact fun hmem => (mem_cons.mp hmem).elim (fun heq => hid heq.symm) hk.planIds

theorem package_checks (hs : WellFormed s) (hb : NamesParents s b) (hh : Historical s h) {pre post : List SyncItem}
    (hitems : b.packages = pre ++ item :: post)
    (hlast : ∀ id, item.recordId .goiThau = some id → ∀ other ∈ post, other.recordId .goiThau ≠ some id)
    (hmutable : (buildContext s b).packageIsMutable (item.recordId .goiThau) = true) :
    (currentPackage s item).bind VersionRow.keHoachId ≠ some h ∧ idOf (item.planValue .goiThau) ≠ some h := by
  have hitem : item ∈ b.packages := by simp [hitems]
  -- a package that the context gives to the plan is refused
  have hrefused : ∀ id, item.recordId .goiThau = some id → (buildContext s b).packagePlanById.get? id ≠ some h := by
    intro id hid hplan
    rw [hid, not_packageIsMutable hs hh hplan] at hmutable
    cases hmutable
  have hbefore : (currentPackage s item).bind VersionRow.keHoachId ≠ some h := by
    intro hcurrent
    obtain ⟨r, hr, hplan⟩ := bind_eq_some_iff.mp hcurrent
    obtain ⟨id, hid, hfind⟩ := bind_eq_some_iff.mp hr
    exact hrefused id hid (get?_packagePlanById_of_packageOf hb hh ⟨r, hfind, hplan⟩ (mem_batchPackageIds_of_package hitem hid))
  refine ⟨hbefore, fun hafter => ?_⟩
  obtain ⟨hsome, hnames⟩ := hb.packages h hh item hitem (.inr hafter)
  obtain ⟨id, hid⟩ := isSome_iff_exists.mp hsome
  have hnamed : packagePlan item (s.packages.find? id) = some h := by
    rw [currentPackage, hid, bind_some] at hnames hbefore
    rcases or_eq_some_iff.mp hnames with hnamed | ⟨-, hcurrent⟩
    · exact hnamed
    · exact absurd hcurrent hbefore
  refine hrefused id hid ?_
  rw [get?_packagePlanById (mem_batchPackageIds_of_package hitem hid), hitems, append_cons,
    get?_incoming_of_forall_ne _ (hlast id hid), get?_incoming_concat, if_pos hid, hnamed]
  rfl

theorem family_ne {r : VersionRow} (hne : h ≠ "") (hr : r.keHoachId ≠ some h) : (r.family .goiThau).2 ≠ h := by
  unfold VersionRow.family
  cases hplan : r.keHoachId with
  | none => exact fun heq => hne heq.symm
  | some plan => exact fun heq => hr (hplan.trans (congrArg some heq))

theorem bind_idOf_of_stored (hplan : ∀ p, plan = some p → IsStoredId p) : (plan.map Scalar.str).bind idOf = plan := by
  cases plan with
  | none => rfl
  | some p => exact hplan p rfl

theorem tracked_ne (id : String) (idGoc : Option String) (hne : h ≠ "")
    (hplan : ∀ p, plan = some p → IsStoredId p) (hother : plan ≠ some h) :
    (∀ f ∈ (trackedFamily .goiThau id idGoc plan).toList, f.2 ≠ h) ∧ h ∉ (trackedPlan plan).toList := by
  unfold trackedFamily trackedPlan
  rw [bind_idOf_of_stored hplan]
  refine ⟨fun f hf heq => ?_, fun hmem => hother (mem_toList.mp hmem)⟩
  obtain ⟨root, -, rfl⟩ := map_eq_some_iff.mp (mem_toList.mp hf)
  cases plan with
  | none => exact hne heq.symm
  | some p => exact hother (congrArg some heq)

theorem packages_writeVersioned {rows rows' : Rows .goiThau} {now : ℕ}
    {fails missing : Option VersionRow → Bool} {previous : Option VersionRow} (hne : h ≠ "")
    (hw : writeVersioned now fails missing item ((item.write .goiThau).serialize previous) rows = some (some rows'))
    (hstored : ∀ stored, (item.recordId .goiThau).bind rows.find? = some stored → stored.keHoachId ≠ some h)
    (hplan : idOf (item.planValue .goiThau) ≠ some h) {r : VersionRow} (hr : r.keHoachId = some h) :
    r ∈ rows.list ↔ r ∈ rows'.list := by
  have hfamily : ∀ o : VersionRow, o.keHoachId ≠ some h → r.family .goiThau ≠ o.family .goiThau := fun o ho heq =>
    family_ne hne ho (by rw [← heq]; simp [VersionRow.family, VersionedTable.isPackage, hr])
  rcases writeVersioned_spec hw with ⟨stored, hfind, hupdate⟩ | ⟨-, hinsert⟩
  · have hold := hstored stored hfind
    obtain ⟨id, hid, hfind⟩ := bind_eq_some_iff.mp hfind
    rw [id_serialize, hid, getD_some] at hupdate
    refine sameFamily_update hupdate hfind (hfamily stored hold) (hfamily _ fun hnew => ?_) r rfl
    rcases or_eq_some_iff.mp hnew with hwritten | ⟨-, hkept⟩
    · exact hplan hwritten
    · exact hold hkept
  · refine sameFamily_insert hinsert (hfamily _ ?_) r rfl
    rw [keHoachId_setLineage]
    exact hplan

theorem currentPackage_of_write (hv : validatesRecord s.packages item = true) (hr : Raised s p) {stored : VersionRow}
    (hstored : (item.recordId .goiThau).bind p.store.packages.find? = some stored)
    (hversion : item.expectedVersion = some stored.rowVersion) : currentPackage s item = some stored := by
  obtain ⟨id, hid, hfind⟩ := bind_eq_some_iff.mp hstored
  rw [currentPackage, hid, bind_some]
  rcases hr id with hsame | ⟨r, hraised, hother⟩
  · rw [← hsame, hfind]
  obtain rfl : stored = r := mem_unique hfind hraised
  unfold validatesRecord at hv
  rw [hid] at hv
  simp only [Bool.and_eq_true, versionExpected, decide_eq_true_eq] at hv
  obtain ⟨r₀, hr₀, heq⟩ := map_eq_some_iff.mp (hv.1.symm.trans hversion)
  exact absurd heq.symm (hother r₀ hr₀)

theorem writePackage_raised (hv : validatesRecord s.packages item = true) {now : ℕ} (hr : Raised s p)
    (hw : writePackage s now p item = some p') :
    Raised s p' ∧ (p' = p ∨ ∀ id, item.recordId .goiThau = some id → RaisedPackage s p' id) := by
  unfold writePackage at hw
  obtain ⟨written, hwrite, rfl⟩ := map_eq_some_iff.mp hw
  cases written with
  | none => exact ⟨hr, .inl rfl⟩
  | some rows =>
    dsimp only
    obtain ⟨hothers, r, hwritten, hversion⟩ := find?_writeVersioned rfl hwrite
    have hraised : ∀ r₀, s.packages.find? ((item.recordId .goiThau).getD item.generatedId) = some r₀ →
        r.rowVersion ≠ r₀.rowVersion := by
      intro r₀ hr₀
      rcases hversion with hnone | ⟨stored, hstored, hfind, hnext⟩
      · -- a new row: the batch did not start from one
        rcases hr ((item.recordId .goiThau).getD item.generatedId) with hsame | ⟨o, ho, -⟩
        · rw [hnone, hr₀] at hsame
          cases hsame
        · rw [hnone] at ho
          cases ho
      · obtain ⟨id, hrecord, -⟩ := bind_eq_some_iff.mp hstored
        have hcurrent := currentPackage_of_write hv hr hstored (writeVersioned_version hwrite hstored)
        rw [hrecord, getD_some] at hr₀
        rw [currentPackage, hrecord, bind_some, hr₀] at hcurrent
        cases hcurrent
        omega
    refine ⟨fun id => ?_, .inr fun id hid => ?_⟩
    · by_cases hsame : id = (item.recordId .goiThau).getD item.generatedId
      · exact .inr ⟨r, hsame ▸ hwritten, hsame ▸ hraised⟩
      · rcases hr id with hold | ⟨o, ho, hother⟩
        · exact .inl ((hothers id hsame).trans hold)
        · exact .inr ⟨o, (hothers id hsame).trans ho, hother⟩
    · rw [hid, getD_some] at hwritten hraised
      exact ⟨r, hwritten, hraised⟩

theorem recordId_ne_of_raised {items : List SyncItem} {now : ℕ}
    (hv : ∀ item ∈ items, validatesRecord s.packages item = true) (hr : Raised s p)
    (hw : items.foldlM (writePackage s now) p = some p') {id : String} (hraised : RaisedPackage s p id) :
    ∀ item ∈ items, item.recordId .goiThau ≠ some id := by
  induction items generalizing p with
  | nil => simp
  | cons item items ih =>
    rw [foldlM_cons] at hw
    obtain ⟨p₁, hstep, hrest⟩ := bind_eq_some_iff.mp hw
    obtain ⟨hv, hvs⟩ := forall_mem_cons.mp hv
    have hne : item.recordId .goiThau ≠ some id := by
      intro hid
      obtain ⟨r, hfind, hother⟩ := hraised
      unfold writePackage at hstep
      obtain ⟨written, hwrite, -⟩ := map_eq_some_iff.mp hstep
      have hstored : (item.recordId .goiThau).bind p.store.packages.find? = some r := by rw [hid, bind_some, hfind]
      have hcurrent := currentPackage_of_write hv hr hstored (writeVersioned_version hwrite hstored)
      rw [currentPackage, hid, bind_some] at hcurrent
      exact hother r hcurrent rfl
    have hstill : RaisedPackage s p₁ id := by
      obtain ⟨r, hfind, hother⟩ := hraised
      unfold writePackage at hstep
      obtain ⟨written, hwrite, rfl⟩ := map_eq_some_iff.mp hstep
      cases written with
      | none => exact ⟨r, hfind, hother⟩
      | some rows => exact ⟨r, (find?_writeVersioned_of_ne hwrite (by simp [hfind]) hne).trans hfind, hother⟩
    exact forall_mem_cons.mpr ⟨hne, ih hvs (writePackage_raised hv hr hstep).1 hrest hstill⟩

theorem writePackage_kept (hs : WellFormed s) (hh : Historical s h) (hv : validatesRecord s.packages item = true)
    (hbefore : (currentPackage s item).bind VersionRow.keHoachId ≠ some h)
    (hafter : idOf (item.planValue .goiThau) ≠ some h) {now : ℕ} (hk : Kept s h p) (hr : Raised s p)
    (hw : writePackage s now p item = some p') : Kept s h p' := by
  unfold writePackage at hw
  obtain ⟨written, hwrite, rfl⟩ := map_eq_some_iff.mp hw
  cases written with
  | none => exact hk
  | some rows =>
    dsimp only
    have hne := hh.ne_empty hs
    have hpackages : ∀ r : VersionRow, r.keHoachId = some h → (r ∈ p.store.packages.list ↔ r ∈ rows.list) :=
      fun r hplan => packages_writeVersioned hne hwrite (fun stored hstored hin => hbefore (by
        rw [currentPackage_of_write hv hr hstored (writeVersioned_version hwrite hstored)]
        exact hin)) hafter hplan
    have hprevious : ∀ r, (item.recordId .goiThau).bind s.packages.find? = some r →
        (∀ f ∈ (trackedFamily .goiThau r.id r.idGoc r.keHoachId).toList, f.2 ≠ h) ∧
          h ∉ (trackedPlan r.keHoachId).toList := by
      intro r hcurrent
      obtain ⟨id, -, hfind⟩ := bind_eq_some_iff.mp hcurrent
      exact tracked_ne _ _ hne (hs.packages r (find?_eq_some.mp hfind).1).2
        fun hplan => hbefore (by rw [currentPackage, hcurrent]; exact hplan)
    obtain ⟨-, -, hclean⟩ := serialize_clean (item.write .goiThau) ((item.recordId .goiThau).bind s.packages.find?)
    have hnew := tracked_ne ((item.write .goiThau).serialize ((item.recordId .goiThau).bind s.packages.find?)).id
      ((item.write .goiThau).serialize ((item.recordId .goiThau).bind s.packages.find?)).idGoc hne hclean hafter
    refine ⟨⟨hk.wellFormed.plans, storedIds_writeVersioned hwrite hk.wellFormed.packages⟩,
      ⟨hk.frozen.plan, hk.frozen.total, fun r hplan => (hk.frozen.packages r hplan).trans (hpackages r hplan),
        hk.frozen.owned⟩, fun f hf => ?_, ?_⟩
    · simp only [mem_append] at hf
      rcases hf with (hf | hf) | hf
      · exact hk.families f hf
      · obtain ⟨r, hcurrent, hr⟩ := bind_eq_some_iff.mp (mem_toList.mp hf)
        exact (hprevious r hcurrent).1 f (mem_toList.mpr hr)
      · exact hnew.1 f hf
    · simp only [mem_append, not_or]
      refine ⟨⟨fun hmem => ?_, hnew.2⟩, hk.planIds⟩
      obtain ⟨r, hcurrent, hr⟩ := bind_eq_some_iff.mp (mem_toList.mp hmem)
      exact (hprevious r hcurrent).2 (mem_toList.mpr hr)

theorem writePackages_kept (hs : WellFormed s) (hb : NamesParents s b) (hh : Historical s h)
    (hv : ∀ item ∈ b.packages, validatesRecord s.packages item = true ∧
      (buildContext s b).packageIsMutable (item.recordId .goiThau) = true) {pre rest : List SyncItem}
    (hitems : b.packages = pre ++ rest) (hk : Kept s h p) (hr : Raised s p) {now : ℕ}
    (hw : rest.foldlM (writePackage s now) p = some p') : Kept s h p' := by
  induction rest generalizing pre p with
  | nil =>
    obtain rfl : p = p' := by simpa using hw
    exact hk
  | cons item rest ih =>
    rw [foldlM_cons] at hw
    obtain ⟨p₁, hstep, hrest⟩ := bind_eq_some_iff.mp hw
    obtain ⟨hvalid, hmutable⟩ := hv item (by simp [hitems])
    have hvalids : ∀ other ∈ rest, validatesRecord s.packages other = true := fun other hother =>
      (hv other (by simp [hitems, hother])).1
    obtain ⟨hr₁, hwritten⟩ := writePackage_raised hvalid hr hstep
    have hk₁ : Kept s h p₁ := by
      rcases hwritten with rfl | hraised
      · exact hk
      have hlast : ∀ id, item.recordId .goiThau = some id → ∀ other ∈ rest, other.recordId .goiThau ≠ some id := fun id hid =>
        recordId_ne_of_raised hvalids hr₁ hrest (hraised id hid)
      obtain ⟨hbefore, hafter⟩ := package_checks hs hb hh hitems hlast hmutable
      exact writePackage_kept hs hh hvalid hbefore hafter hk hr hstep
    exact ih (by rw [hitems, append_cons]) hk₁ hr₁ hrest

/-! ## The rows that belong to packages -/

def RaisedOwned (s : Store) (p : Progress) : Prop :=
  ∀ t id, (p.store.owned t).get? id = (s.owned t).get? id ∨
    ∃ row, (p.store.owned t).get? id = some row ∧
      ∀ row₀, (s.owned t).get? id = some row₀ → row.rowVersion ≠ row₀.rowVersion

theorem owned_setOwned (s : Store) (t t' : OwnedTable) (rows : Dict String OwnedRow) :
    (s.setOwned t rows).owned t' = if t' = t then rows else s.owned t' := rfl

theorem writeOwned_spec {t : OwnedTable} (hw : writeOwned t p item = some p') :
    p' = p ∨ ∃ row, ownedRow t item ((item.ownedId t).bind (p.store.owned t).get?) = some row ∧
      p' = ⟨p.store.setOwned t ((p.store.owned t).set ((item.ownedId t).getD item.generatedId) row),
        p.planFamilies, p.packageFamilies, p.planIds⟩ ∧
      (t = .phanCongNhanSu → item.unresolved = false) ∧
      ((item.ownedId t).bind (p.store.owned t).get? = none →
        (p.store.owned t).get? ((item.ownedId t).getD item.generatedId) = none) ∧
      (((item.ownedId t).bind (p.store.owned t).get?).map OwnedRow.ownerId = some row.ownerId ∨
        missesPackage p.store t row = false) := by
  unfold writeOwned at hw
  split at hw
  · exact .inl (some.inj hw).symm
  rename_i hresolved
  obtain ⟨row, hrow, hw⟩ := bind_eq_some_iff.mp hw
  split at hw
  · cases hw
  rename_i hfails
  split at hw
  · split at hw
    · exact .inl (some.inj hw).symm
    · cases hw
  · rename_i hmissing
    refine .inr ⟨row, hrow, (some.inj hw).symm, fun ht => ?_, fun hnone => ?_, ?_⟩
    · simpa [ht] using hresolved
    · simp only [hnone, isNone_none, Bool.true_and, Bool.or_eq_true, not_or, Bool.not_eq_true] at hfails
      simpa [Dict.contains] using hfails.2
    · simp only [Bool.or_eq_true, Bool.and_eq_true, decide_eq_true_eq, not_or, not_and, Bool.not_eq_true] at hmissing
      by_cases hsame : ((item.ownedId t).bind (p.store.owned t).get?).map OwnedRow.ownerId = some row.ownerId
      · exact .inl hsame
      · exact .inr (hmissing.2 hsame)

theorem currentOwned_of_write {t : OwnedTable} (hv : validatesOwned s t item = true) (hr : RaisedOwned s p)
    (hrow : ownedRow t item ((item.ownedId t).bind (p.store.owned t).get?) = some row) :
    (item.ownedId t).bind (p.store.owned t).get? = s.currentOwned t item := by
  unfold Store.currentOwned
  cases hid : item.ownedId t with
  | none => rfl
  | some id =>
    rw [bind_some, bind_some]
    rcases hr t id with hsame | ⟨r, hraised, hother⟩
    · exact hsame
    rw [hid, bind_some, hraised] at hrow
    unfold validatesOwned at hv
    rw [hid] at hv
    have hv : item.expectedVersion = ((s.owned t).get? id).map OwnedRow.rowVersion := by simpa [versionExpected] using hv
    unfold ownedRow at hrow
    dsimp only at hrow
    rw [hv] at hrow
    cases hstart : (s.owned t).get? id with
    | none => simp [hstart] at hrow
    | some row₀ =>
      have hne := hother row₀ hstart
      simp [hstart, Ne.symm hne] at hrow

theorem rowVersion_ownedRow {t : OwnedTable} {stored : OwnedRow} (h : ownedRow t item (some stored) = some row) :
    row.rowVersion = stored.rowVersion + 1 := by
  unfold ownedRow at h
  dsimp only at h
  split at h
  · split at h
    · rename_i hexpected
      rw [← some.inj h, ← hexpected]
      rfl
    · cases h
  · cases h

theorem writeOwned_raised {t : OwnedTable} (hv : validatesOwned s t item = true) (hr : RaisedOwned s p)
    (hw : writeOwned t p item = some p') : RaisedOwned s p' := by
  rcases writeOwned_spec hw with rfl | ⟨row, hrow, rfl, -, hfresh, -⟩
  · exact hr
  have hcurrent := currentOwned_of_write hv hr hrow
  intro t' id
  dsimp only
  rw [owned_setOwned]
  by_cases ht : t' = t
  · subst ht
    rw [if_pos rfl, Dict.get?_set]
    by_cases hid : id = (item.ownedId t').getD item.generatedId
    · rw [if_pos hid]
      refine .inr ⟨row, rfl, fun row₀ hrow₀ => ?_⟩
      cases hstored : (item.ownedId t').bind (p.store.owned t').get? with
      | none =>
        rcases hr t' id with hsame | ⟨o, ho, -⟩
        · rw [hid, hfresh hstored, ← hid, hrow₀] at hsame
          cases hsame
        · rw [hid, hfresh hstored] at ho
          cases ho
      | some stored =>
        rw [hstored] at hrow hcurrent
        have hnext := rowVersion_ownedRow hrow
        obtain ⟨recordId, hrecord, hstart⟩ := bind_eq_some_iff.mp hcurrent.symm
        rw [hid, hrecord, getD_some, hstart] at hrow₀
        cases hrow₀
        omega
    · rw [if_neg hid]
      exact hr t' id
  · rw [if_neg ht]
    exact hr t' id

theorem owned_checks (hs : WellFormed s) (hb : NamesParents s b) (hh : Historical s h) {t : OwnedTable}
    (hitem : item ∈ b.owned t)
    (hmutable : (buildContext s b).packageIsMutable (ownerPackage t item (s.currentOwned t item)) = true)
    (hresolved : t = .phanCongNhanSu → item.unresolved = false)
    (hrow : ownedRow t item (s.currentOwned t item) = some row) (hwf : WellFormed p.store)
    (hpresent : (s.currentOwned t item).map OwnedRow.ownerId = some row.ownerId ∨ missesPackage p.store t row = false)
    (hpackage : PackageOf s h packageId) :
    (s.currentOwned t item).bind OwnedRow.package ≠ some packageId ∧ row.package ≠ some packageId := by
  have hstored : packageId ≠ "" := by
    obtain ⟨r, hr, -⟩ := hpackage
    obtain ⟨hmem, rfl⟩ := find?_eq_some.mp hr
    exact (hs.packages r hmem).1.ne_empty
  have hpackageId : ∀ o : OwnedRow, o.package = some packageId → o.ownerId = packageId := by
    intro o ho
    unfold OwnedRow.package at ho
    split at ho
    · exact some.inj ho
    · cases ho
  rw [← not_or]
  intro hin
  -- a blank package id meets its foreign key only where it was stored, and then the row is in no package
  have hblank : t ≠ .phanCongNhanSu → row.ownerId ≠ "" := by
    intro ht hempty
    rcases hin with hbefore | hafter
    · obtain ⟨stored, hcurrent, hin⟩ := bind_eq_some_iff.mp hbefore
      rcases hpresent with hsame | hfound
      · rw [hcurrent, map_some, hempty, hpackageId stored hin] at hsame
        exact hstored (some.inj hsame)
      · have hfind : ∃ r, p.store.packages.find? row.ownerId = some r := by
          simpa [missesPackage, ht, ← isSome_iff_exists, isSome_iff_ne_none] using hfound
        obtain ⟨r, hr⟩ := hfind
        obtain ⟨hmem, hid⟩ := find?_eq_some.mp hr
        exact (hwf.packages r hmem).1.ne_empty (hid.trans hempty)
    · exact hstored ((hpackageId row hafter).symm.trans hempty)
  have hnamed := hb.owned h hh packageId hpackage t item hitem row hrow hresolved hblank hin
  rw [hnamed, not_packageIsMutable hs hh (get?_packagePlanById_of_packageOf hb hh hpackage
    (mem_batchPackageIds_of_owned hitem hnamed))] at hmutable
  cases hmutable

theorem writeOwned_kept (hs : WellFormed s) (hb : NamesParents s b) (hh : Historical s h) {t : OwnedTable}
    (hitem : item ∈ b.owned t) (hv : validatesOwned s t item = true)
    (hmutable : (t = .phanCongNhanSu ∧ item.unresolved = true) ∨
      (buildContext s b).packageIsMutable (ownerPackage t item (s.currentOwned t item)) = true)
    (hk : Kept s h p) (hr : RaisedOwned s p) (hw : writeOwned t p item = some p') : Kept s h p' := by
  rcases writeOwned_spec hw with rfl | ⟨row, hrow, rfl, hresolved, hfresh, hpresent⟩
  · exact hk
  have hcurrent := currentOwned_of_write hv hr hrow
  have hmutable := hmutable.resolve_left fun h => by
    have hfalse := hresolved h.1
    rw [h.2] at hfalse
    cases hfalse
  refine ⟨⟨hk.wellFormed.plans, hk.wellFormed.packages⟩, ⟨hk.frozen.plan, hk.frozen.total, hk.frozen.packages,
    fun t' id row' packageId hpackage hrow' => ?_⟩, hk.families, hk.planIds⟩
  have hold := hk.frozen.owned t' id row' packageId hpackage hrow'
  dsimp only
  rw [owned_setOwned]
  by_cases ht : t' = t
  · subst ht
    rw [hcurrent] at hrow hpresent
    obtain ⟨hbefore, hafter⟩ := owned_checks hs hb hh hitem hmutable hresolved hrow hk.wellFormed hpresent hpackage
    rw [if_pos rfl, Dict.get?_set]
    by_cases hid : id = (item.ownedId t').getD item.generatedId
    · rw [if_pos hid]
      refine iff_of_false (fun hget => ?_) fun hget => hafter (some.inj hget ▸ hrow')
      cases hrecord : item.ownedId t' with
      | some recordId =>
        rw [hrecord, getD_some] at hid
        refine hbefore ?_
        rw [Store.currentOwned, hrecord, bind_some, ← hid, hget]
        exact hrow'
      | none =>
        have hnone := hfresh (by rw [hrecord]; rfl)
        rw [← hid, hold.mp hget] at hnone
        cases hnone
    · rw [if_neg hid]
      exact hold
  · rw [if_neg ht]
    exact hold

theorem sameButFlag_recalculated (t : VersionedTable) (collation : Collation) (now : ℕ) (affected : List Family)
    (rows : List VersionRow) (r : VersionRow) : SameButFlag r (recalculated t collation now affected rows r) := by
  unfold SameButFlag recalculated promote demote
  split_ifs <;> rfl

theorem find?_recalculated {t : VersionedTable} {now : ℕ}
    {rows rows' : Rows t} (hw : recalculateIsLatest collation now affected rows = some rows') {id : String}
    {r : VersionRow} (hr : rows.find? id = some r) :
    rows'.find? id = some (recalculated t collation now affected rows.list r) := by
  rw [recalculateIsLatest_eq] at hw
  cases hw
  obtain ⟨hmem, hid⟩ := find?_eq_some.mp hr
  rw [find?_eq_some]
  exact ⟨mem_map_of_mem hmem, by simpa [recalculated] using hid⟩

theorem storedIds_recalculated {t : VersionedTable} {now : ℕ}
    {rows rows' : Rows t} (hw : recalculateIsLatest collation now affected rows = some rows')
    (hrows : ∀ r ∈ rows.list, StoredIds r) : ∀ r ∈ rows'.list, StoredIds r := by
  rw [recalculateIsLatest_eq] at hw
  cases hw
  intro r hr
  obtain ⟨o, ho, rfl⟩ := mem_map.mp hr
  have hsame := sameButFlag_recalculated t collation now affected rows.list o
  unfold StoredIds
  rw [hsame]
  exact hrows o ho

theorem get?_recalculated_totals (planTotal : String → Option ℕ) {planIds : List String} (hids : h ∉ planIds)
    (totals : Dict String ℕ) : (planIds.foldl (fun totals id =>
      match planTotal id with
      | some total => totals.set id total
      | none => totals) totals).get? h = totals.get? h := by
  induction planIds generalizing totals with
  | nil => rfl
  | cons id planIds ih =>
    rw [mem_cons, not_or] at hids
    rw [foldl_cons, ih hids.2]
    split
    · exact Dict.get?_set_of_ne _ _ hids.1
    · rfl

theorem recalculate_kept (hk : Kept s h p) (hw : recalculate collation b p = some p') : Kept s h p' := by
  unfold recalculate at hw
  obtain ⟨plans, hplans, hw⟩ := bind_eq_some_iff.mp hw
  obtain ⟨packages, hpackages, rfl⟩ := map_eq_some_iff.mp hw
  refine ⟨⟨storedIds_recalculated hplans hk.wellFormed.plans, storedIds_recalculated hpackages hk.wellFormed.packages⟩,
    ⟨fun r hr => ?_, ?_, fun r hr => ?_, hk.frozen.owned⟩, hk.families, hk.planIds⟩
  · obtain ⟨r', hr', hsame⟩ := hk.frozen.plan r hr
    exact ⟨_, find?_recalculated hplans hr', hsame.trans (sameButFlag_recalculated _ _ _ _ _ r')⟩
  · exact (get?_recalculated_totals b.planTotal hk.planIds _).trans hk.frozen.total
  · refine (hk.frozen.packages r hr).trans ((recalculateIsLatest_spec hpackages).2 (r.family .goiThau)
      (fun hmem => hk.families _ hmem ?_) r rfl)
    simp [VersionRow.family, VersionedTable.isPackage, hr]

theorem writePlan_others {now : ℕ} (hw : writePlan s now p item = some p') :
    p'.store.packages = p.store.packages ∧ p'.store.owned = p.store.owned := by
  unfold writePlan at hw
  obtain ⟨written, -, rfl⟩ := map_eq_some_iff.mp hw
  cases written <;> exact ⟨rfl, rfl⟩

theorem writePackage_others {now : ℕ} (hw : writePackage s now p item = some p') : p'.store.owned = p.store.owned := by
  unfold writePackage at hw
  obtain ⟨written, -, rfl⟩ := map_eq_some_iff.mp hw
  cases written <;> rfl

theorem SyncBatch.validates_spec (hv : b.validates s = true) : (∀ item ∈ b.plans, validatesRecord s.plans item = true) ∧
    (∀ item ∈ b.packages, validatesRecord s.packages item = true ∧
      (buildContext s b).packageIsMutable (item.recordId .goiThau) = true) ∧
    ∀ t, ∀ item ∈ b.owned t, validatesOwned s t item = true ∧
      ((t = .phanCongNhanSu ∧ item.unresolved = true) ∨
        (buildContext s b).packageIsMutable (ownerPackage t item (s.currentOwned t item)) = true) := by
  unfold SyncBatch.validates at hv
  simp only [Bool.and_eq_true, all_eq_true, Bool.or_eq_true, decide_eq_true_eq] at hv
  exact ⟨hv.1.1, hv.1.2, fun t item hitem => hv.2 t t.mem_all item hitem⟩

theorem writeAllOwned_kept (hs : WellFormed s) (hb : NamesParents s b) (hh : Historical s h)
    (hv : b.validates s = true) (hk : Kept s h p) (hr : RaisedOwned s p) (hw : writeAllOwned b p = some p') : Kept s h p' := by
  obtain ⟨-, -, howned⟩ := SyncBatch.validates_spec hv
  refine (foldlM_inv _ (fun p => Kept s h p ∧ RaisedOwned s p) (fun p t _ p' ht hp => ?_) hw ⟨hk, hr⟩).1
  refine foldlM_inv _ (fun p => Kept s h p ∧ RaisedOwned s p) (fun p item hitem p' hstep hp => ?_) ht hp
  obtain ⟨hvalid, hmutable⟩ := howned t item hitem
  exact ⟨writeOwned_kept hs hb hh hitem hvalid hmutable hp.1 hp.2 hstep, writeOwned_raised hvalid hp.2 hstep⟩

/-- A batch leaves the rows of a historical plan as they were. -/
theorem execute_kept (hs : WellFormed s) (hb : NamesParents s b) (hh : Historical s h)
    (hw : b.execute collation s = some s') : WellFormed s' ∧ Frozen s s' h := by
  unfold SyncBatch.execute at hw
  split at hw
  · cases hw
  rename_i hrefused
  have hvalid : b.validates s = true := by
    simp only [Bool.or_eq_true, not_or, Bool.not_eq_true, Bool.not_eq_false'] at hrefused
    exact hrefused.2
  obtain ⟨hplans, hpackages, -⟩ := SyncBatch.validates_spec hvalid
  obtain ⟨p₁, hw₁, hw⟩ := bind_eq_some_iff.mp hw
  obtain ⟨p₂, hw₂, hw⟩ := bind_eq_some_iff.mp hw
  obtain ⟨p₃, hw₃, hw⟩ := bind_eq_some_iff.mp hw
  obtain ⟨p₄, hw₄, hw⟩ := bind_eq_some_iff.mp hw
  obtain ⟨p₅, hw₅, rfl⟩ := map_eq_some_iff.mp hw
  have hstart : Kept s h ⟨s, [], [], []⟩ := ⟨hs, .refl s h, by simp, by simp⟩
  obtain ⟨hk₁, hsame, howned⟩ := foldlM_inv _ (fun p => Kept s h p ∧ p.store.packages = s.packages ∧ p.store.owned = s.owned)
    (fun p item hitem p' hstep hp => ⟨writePlan_kept hh (hplans item hitem) hp.1 hstep,
      (writePlan_others hstep).1.trans hp.2.1, (writePlan_others hstep).2.trans hp.2.2⟩) hw₁ ⟨hstart, rfl, rfl⟩
  have hk₂ : Kept s h p₂ := writePackages_kept hs hb hh hpackages (nil_append b.packages).symm hk₁
    (fun id => .inl (by rw [hsame])) hw₂
  have howned₂ : p₂.store.owned = s.owned := foldlM_inv _ (fun p => p.store.owned = s.owned)
    (fun p item _ p' hstep hp => (writePackage_others hstep).trans hp) hw₂ howned
  have hk₃ : Kept s h p₃ := writeAllOwned_kept hs hb hh hvalid hk₂ (fun t id => .inl (by rw [howned₂])) hw₃
  have hk₅ : Kept s h p₅ := recalculate_kept (recalculate_kept hk₃ hw₄) hw₅
  exact ⟨hk₅.wellFormed, hk₅.frozen⟩

def Store.run (collation : Collation) (s : Store) (batches : List SyncBatch) : Store :=
  batches.foldl (fun s b => (b.execute collation s).getD s) s

/-- A plan version that is not the latest when a batch arrives is left as it is by every batch of a run
whose items name the parents their rows have and get. -/
theorem historical_plan_frozen (collation : Collation) {s : Store} (hs : WellFormed s) (h : String)
    (batches : List SyncBatch) (hbatches : ∀ before b after, batches = before ++ b :: after →
      Historical (s.run collation before) h ∧ NamesParents (s.run collation before) b) :
    Frozen s (s.run collation batches) h := by
  have hrun : ∀ before after, batches = before ++ after →
      WellFormed (s.run collation before) ∧ Frozen s (s.run collation before) h := by
    intro before
    induction before using List.reverseRecOn with
    | nil => exact fun _ _ => ⟨hs, .refl s h⟩
    | append_singleton before b ih =>
      intro after hsplit
      rw [append_assoc, singleton_append] at hsplit
      obtain ⟨hwf, hfrozen⟩ := ih _ hsplit
      obtain ⟨hhistorical, hnames⟩ := hbatches before b after hsplit
      rw [Store.run, foldl_append, foldl_cons, foldl_nil]
      change WellFormed ((b.execute collation (s.run collation before)).getD (s.run collation before)) ∧
        Frozen s ((b.execute collation (s.run collation before)).getD (s.run collation before)) h
      cases hexecute : b.execute collation (s.run collation before) with
      | none => exact ⟨hwf, hfrozen⟩
      | some s'' =>
        obtain ⟨hwf', hfrozen'⟩ := execute_kept hwf hnames hhistorical hexecute
        exact ⟨hwf', hfrozen.trans hfrozen'⟩
  exact (hrun batches [] (append_nil batches).symm).2

/-! ## Samples -/

def sampleRow (id root : String) (plan : Option String) (phienBan : ℕ) (isLatest : Bool) : VersionRow :=
  ⟨id, some root, plan, phienBan, isLatest, none, 0, 1⟩

def sampleStore : Store where
  plans := ⟨[sampleRow "plan-00" "plan-00" none 0 false, sampleRow "plan-01" "plan-00" none 1 true], by decide⟩
  packages := ⟨[sampleRow "package-1" "package-1" (some "plan-00") 0 true], by decide⟩
  tongMucDauTu := .empty
  owned := fun t => if t = .thongTinMoThau then Dict.empty.set "opening-1" ⟨goithau, "package-1", 1⟩ else .empty

def sampleItem (fields : List (String × String)) (expectedVersion : Option ℕ) : SyncItem :=
  ⟨.ofList (fields.map fun f => (f.1, .str f.2)), none, none, none, expectedVersion, "new-1", by decide, false, false, false⟩

def sampleBatch : SyncBatch where
  refused := false
  now := 1
  plans := []
  packages := [sampleItem [("id", "package-2"), ("ke_hoach_id", "plan-01")] none]
  owned := fun t => if t = .thongTinMoThau then [sampleItem [("id", "opening-2"), ("goiThauId", "package-2")] none] else []
  planTotal := fun _ => none

theorem wellFormed_sampleStore : WellFormed sampleStore := by
  refine ⟨fun r hr => ?_, fun r hr => ?_⟩
  · have hids : ∀ r ∈ sampleStore.plans.list, IsStoredId r.id ∧ r.keHoachId = none := by decide
    exact ⟨(hids r hr).1, fun plan hplan => by rw [(hids r hr).2] at hplan; cases hplan⟩
  · have hids : ∀ r ∈ sampleStore.packages.list, IsStoredId r.id ∧ r.keHoachId = some "plan-00" := by decide
    refine ⟨(hids r hr).1, fun plan hplan => ?_⟩
    rw [(hids r hr).2] at hplan
    exact some.inj hplan ▸ (by decide)

theorem historical_sampleStore : Historical sampleStore "plan-00" :=
  ⟨sampleRow "plan-00" "plan-00" none 0 false, by decide, rfl⟩

theorem historical_sampleStore_iff (hh : Historical sampleStore h) : h = "plan-00" := by
  obtain ⟨r, hr, hlatest⟩ := hh
  obtain ⟨hmem, rfl⟩ := find?_eq_some.mp hr
  have hrows : ∀ r ∈ sampleStore.plans.list, r.isLatest = false → r.id = "plan-00" := by decide
  exact hrows r hmem hlatest

/-- A batch that names the historical plan and its package, and is refused. -/
def namingBatch : SyncBatch :=
  { sampleBatch with
    packages := [sampleItem [("id", "package-1"), ("keHoachId", "plan-00"), ("phienBan", "1")] (some 1)]
    owned := fun t => if t = .thongTinMoThau then [sampleItem [("id", "opening-1"), ("goiThauId", "package-1")] (some 1)] else [] }

theorem namesParents_sampleStore {b : SyncBatch}
    (hpackages : ∀ item ∈ b.packages, NamesPlan sampleStore "plan-00" item)
    (howned : ∀ t ∈ OwnedTable.all, ∀ item ∈ b.owned t,
      (ownedRow t item (sampleStore.currentOwned t item)).bind OwnedRow.package = ownerPackage t item (sampleStore.currentOwned t item) ∧
      ((sampleStore.currentOwned t item).bind OwnedRow.package).all (ownerPackage t item (sampleStore.currentOwned t item) = some ·)) :
    NamesParents sampleStore b := by
  refine ⟨fun h hh item hitem => ?_, fun h hh packageId _ t item hitem row hrow _ _ hparent => ?_⟩
  · obtain rfl := historical_sampleStore_iff hh
    exact hpackages item hitem
  · obtain ⟨hgets, hstored⟩ := howned t t.mem_all item hitem
    rcases hparent with hparent | hparent
    · simpa [hparent] using hstored
    · rw [← hgets, hrow]
      exact hparent

theorem historical_plan_frozen_sample : Frozen sampleStore (sampleStore.run .codePoints [namingBatch, sampleBatch]) "plan-00" ∧
    (sampleStore.run .codePoints [namingBatch, sampleBatch]).packages.list.length = 2 := by
  have hrefused : sampleStore.run .codePoints [namingBatch] = sampleStore := by
    have hnone : (namingBatch.execute .codePoints sampleStore).isNone = true := by decide
    simp [Store.run, Option.isNone_iff_eq_none.mp hnone]
  refine ⟨historical_plan_frozen .codePoints wellFormed_sampleStore "plan-00" [namingBatch, sampleBatch]
    fun before b after hsplit => ?_, by decide⟩
  rcases before with _ | ⟨b', _ | ⟨b'', before⟩⟩
  · obtain ⟨rfl, -⟩ := List.cons.inj hsplit
    exact ⟨historical_sampleStore, namesParents_sampleStore (by decide) (by decide)⟩
  · obtain ⟨rfl, hrest⟩ := List.cons.inj hsplit
    obtain ⟨rfl, -⟩ := List.cons.inj hrest
    rw [hrefused]
    exact ⟨historical_sampleStore, namesParents_sampleStore (by decide) (by decide)⟩
  · have hlength := congrArg List.length hsplit
    simp at hlength

def movingBatch : SyncBatch where
  refused := false
  now := 1
  plans := []
  packages := [sampleItem [("id", "package-1"), ("keHoachId", "plan-01")] (some 1)]
  owned := fun _ => []
  planTotal := fun _ => none

/-- The batch is accepted, and the historical plan version loses its package. -/
theorem package_moved_out_of_history :
    Historical sampleStore "plan-00" ∧ ¬ Frozen sampleStore (sampleStore.run .codePoints [movingBatch]) "plan-00" := by
  refine ⟨historical_sampleStore, fun hfrozen => ?_⟩
  have hstored : sampleRow "package-1" "package-1" (some "plan-00") 0 true ∈ sampleStore.packages.list := by decide
  have hkept := (hfrozen.packages _ rfl).mp hstored
  have hmoved : sampleRow "package-1" "package-1" (some "plan-00") 0 true ∉
      (sampleStore.run .codePoints [movingBatch]).packages.list := by decide
  exact hmoved hkept

end Bidding.History
