import Bidding.Versions.Commands
import Bidding.Foundations.Saturate
import Mathlib.Data.List.MinMax

/-!
# The latest version of a family

A family is settled when exactly its newest version that is not archived carries the flag. After a batch every family is
settled; a restore sets the flag without recalculating.
-/

namespace Bidding.Versions

open Foundations List
open Option hiding all_eq_true map_map mem_map

variable {t : VersionedTable} {collation : Collation} {f : Family} {g : VersionRow → VersionRow}

def Newest (t : VersionedTable) (rows : List VersionRow) (r : VersionRow) : Prop :=
  r.archivedAt = none ∧
    ∀ o ∈ rows, o.archivedAt = none → o.family t = r.family t → o.phienBan ≤ r.phienBan

def Settled (t : VersionedTable) (rows : List VersionRow) (f : Family) : Prop :=
  ∀ r ∈ rows, r.family t = f → (r.isLatest = true ↔ Newest t rows r)

def SameFamily (t : VersionedTable) (rows rows' : List VersionRow) (f : Family) : Prop :=
  ∀ r : VersionRow, r.family t = f → (r ∈ rows ↔ r ∈ rows')

variable (rows : List VersionRow)

theorem SameFamily.refl (f : Family) : SameFamily t rows rows f :=
  fun _ _ => Iff.rfl

theorem SameFamily.trans {rows rows' rows'' : List VersionRow}
    (h : SameFamily t rows rows' f) (h' : SameFamily t rows' rows'' f) :
    SameFamily t rows rows'' f := fun r hr => (h r hr).trans (h' r hr)

theorem SameFamily.newest_iff {rows rows' : List VersionRow} {r : VersionRow}
    (h : SameFamily t rows rows' (r.family t)) : Newest t rows r ↔ Newest t rows' r := by
  unfold Newest
  refine and_congr_right fun _ => ⟨fun hmax o ho hlive hfamily => ?_, fun hmax o ho hlive hfamily => ?_⟩
  · exact hmax o ((h o hfamily).mpr ho) hlive hfamily
  · exact hmax o ((h o hfamily).mp ho) hlive hfamily

theorem SameFamily.settled {rows rows' : List VersionRow}
    (h : SameFamily t rows rows' f) (hsettled : Settled t rows f) : Settled t rows' f := by
  intro r hr hfamily
  subst hfamily
  rw [hsettled r ((h r rfl).mpr hr) rfl]
  exact h.newest_iff

theorem newest_map_iff (hfamily : ∀ r, (g r).family t = r.family t)
    (harchived : ∀ r, (g r).archivedAt = r.archivedAt) (hversion : ∀ r, (g r).phienBan = r.phienBan)
    (rows : List VersionRow) (r : VersionRow) : Newest t (rows.map g) (g r) ↔ Newest t rows r := by
  unfold Newest
  rw [harchived, hfamily, hversion]
  refine and_congr_right fun _ => ⟨fun hmax o ho hlive hf => ?_, fun hmax o' ho' hlive hf => ?_⟩
  · have h := hmax (g o) (mem_map_of_mem ho) ((harchived o).trans hlive) ((hfamily o).trans hf)
    rwa [hversion] at h
  · obtain ⟨o, ho, rfl⟩ := mem_map.mp ho'
    rw [hversion]
    exact hmax o ho ((harchived o).symm.trans hlive) ((hfamily o).symm.trans hf)

/-! ## The recalculation -/

variable (now : ℕ)

variable (affected : List Family) {list : List VersionRow}

variable (r : VersionRow)

@[simp] theorem family_demote : (demote t now affected r).family t = r.family t := by
  unfold demote
  split <;> rfl

@[simp] theorem archivedAt_demote : (demote t now affected r).archivedAt = r.archivedAt := by
  unfold demote
  split <;> rfl

@[simp] theorem phienBan_demote : (demote t now affected r).phienBan = r.phienBan := by
  unfold demote
  split <;> rfl

@[simp] theorem id_demote : (demote t now affected r).id = r.id := by
  unfold demote
  split <;> rfl

@[simp] theorem family_promote : (promote t collation now affected rows r).family t = r.family t := by
  unfold promote
  split <;> rfl

@[simp] theorem archivedAt_promote : (promote t collation now affected rows r).archivedAt = r.archivedAt := by
  unfold promote
  split <;> rfl

@[simp] theorem phienBan_promote : (promote t collation now affected rows r).phienBan = r.phienBan := by
  unfold promote
  split <;> rfl

@[simp] theorem id_promote : (promote t collation now affected rows r).id = r.id := by
  unfold promote
  split <;> rfl

variable (rows : Rows t)

theorem isWinner_iff_newest {r : VersionRow} (hr : r ∈ rows.list) :
    isWinner t collation rows.list r = true ↔ Newest t rows.list r := by
  unfold isWinner Newest
  simp only [Bool.and_eq_true, isNone_iff_eq_none, all_eq_true, Bool.or_eq_true,
    Bool.not_eq_true', Bool.and_eq_false_iff, decide_eq_true_eq, decide_eq_false_iff_not]
  refine and_congr_right fun _ => ⟨fun h o ho hlive hfamily => ?_, fun h o ho => ?_⟩
  · have hrank : o.rank collation ≤ r.rank collation := by
      rcases h o ho with (hdead | hother) | hrank
      · simp [hlive] at hdead
      · exact absurd hfamily hother
      · exact hrank
    rcases Prod.Lex.toLex_le_toLex.mp hrank with hlt | ⟨heq, -⟩
    · exact hlt.le
    · exact heq.le
  · by_cases hlive : o.archivedAt = none
    · by_cases hfamily : o.family t = r.family t
      · right
        rcases lt_or_eq_of_le (h o ho hlive hfamily) with hlt | heq
        · exact Prod.Lex.toLex_le_toLex.mpr (.inl hlt)
        · have hid := rows.keys.version o ho r hr hfamily heq
          rw [inj_on_of_nodup_map rows.keys.id ho hr hid]
      · exact .inl (.inr hfamily)
    · left; left
      cases hdead : o.archivedAt with
      | none => exact absurd hdead hlive
      | some _ => rfl

theorem checked_eq_some {rows : Rows t} : Rows.checked list = some rows ↔ rows.list = list := by
  unfold Rows.checked
  constructor
  · intro h
    split at h
    · rw [← some.inj h]
    · exact absurd h (by simp)
  · rintro rfl
    rw [dif_pos rows.keys]

def recalculated (t : VersionedTable) (collation : Collation) (now : ℕ) (affected : List Family)
    (rows : List VersionRow) (r : VersionRow) : VersionRow :=
  promote t collation now affected (rows.map (demote t now affected)) (demote t now affected r)

theorem recalculated_of_not_mem {now : ℕ} {affected : List Family} {rows : List VersionRow}
    {r : VersionRow} (h : r.family t ∉ affected) :
    recalculated t collation now affected rows r = r := by
  simp [recalculated, promote, demote, h]

theorem isLatest_recalculated {now : ℕ} {affected : List Family} {rows : List VersionRow}
    {r : VersionRow} (h : r.family t ∈ affected) :
    (recalculated t collation now affected rows r).isLatest =
      isWinner t collation (rows.map (demote t now affected)) (demote t now affected r) := by
  have hdemoted : (demote t now affected r).isLatest = false := by cases hlatest : r.isLatest <;> simp [demote, h, hlatest]
  unfold recalculated promote
  cases hwinner : isWinner t collation (rows.map (demote t now affected)) (demote t now affected r)
  · simp [hdemoted]
  · simp [h, hdemoted]

theorem keysHold_demote (now : ℕ) (affected : List Family) : KeysHold t (rows.list.map (demote t now affected)) := by
  refine ⟨?_, ?_, ?_⟩
  · have hids : (rows.list.map (demote t now affected)).map VersionRow.id =
        rows.list.map VersionRow.id := by simp [map_map, Function.comp_def]
    rw [hids]
    exact rows.keys.id
  · intro _ hma _ hmb hfamily hversion
    obtain ⟨a, ha, rfl⟩ := mem_map.mp hma
    obtain ⟨b, hb, rfl⟩ := mem_map.mp hmb
    simp only [family_demote, phienBan_demote, id_demote] at hfamily hversion ⊢
    exact rows.keys.version a ha b hb hfamily hversion
  · intro _ hma _ hmb hfamily hlatest hlatest'
    obtain ⟨a, ha, rfl⟩ := mem_map.mp hma
    obtain ⟨b, hb, rfl⟩ := mem_map.mp hmb
    have hflag : ∀ r : VersionRow, (demote t now affected r).isLatest = true → r.isLatest = true := by
      intro r h
      unfold demote at h
      split at h
      · exact absurd h (by simp)
      · exact h
    simp only [family_demote, id_demote] at hfamily ⊢
    exact rows.keys.latest a ha b hb hfamily (hflag a hlatest) (hflag b hlatest')

theorem isLatest_recalculated_iff {now : ℕ} {affected : List Family}
    {r : VersionRow} (hr : r ∈ rows.list) (h : r.family t ∈ affected) :
    (recalculated t collation now affected rows.list r).isLatest = true ↔
      Newest t rows.list r := by
  have hwinner := @isWinner_iff_newest t collation ⟨_, keysHold_demote rows now affected⟩ _
    (mem_map_of_mem (f := demote t now affected) hr)
  rw [isLatest_recalculated h, hwinner]
  exact newest_map_iff (family_demote now affected) (archivedAt_demote now affected) (phienBan_demote now affected) rows.list r

theorem keysHold_recalculated (now : ℕ) (affected : List Family) :
    KeysHold t (rows.list.map (recalculated t collation now affected rows.list)) := by
  have hids : ∀ r, (recalculated t collation now affected rows.list r).id = r.id := by simp [recalculated]
  have hfamilies : ∀ r, (recalculated t collation now affected rows.list r).family t = r.family t := by simp [recalculated]
  have hversions : ∀ r, (recalculated t collation now affected rows.list r).phienBan = r.phienBan := by simp [recalculated]
  refine ⟨?_, ?_, ?_⟩
  · have hmap : (rows.list.map (recalculated t collation now affected rows.list)).map VersionRow.id =
        rows.list.map VersionRow.id := by simp [map_map, Function.comp_def, hids]
    rw [hmap]
    exact rows.keys.id
  · intro _ hma _ hmb hfamily hversion
    obtain ⟨a, ha, rfl⟩ := mem_map.mp hma
    obtain ⟨b, hb, rfl⟩ := mem_map.mp hmb
    rw [hids, hids]
    rw [hfamilies, hfamilies] at hfamily
    rw [hversions, hversions] at hversion
    exact rows.keys.version a ha b hb hfamily hversion
  · intro _ hma _ hmb hfamily hlatest hlatest'
    obtain ⟨a, ha, rfl⟩ := mem_map.mp hma
    obtain ⟨b, hb, rfl⟩ := mem_map.mp hmb
    rw [hids, hids]
    rw [hfamilies, hfamilies] at hfamily
    by_cases haffected : a.family t ∈ affected
    · rw [isLatest_recalculated_iff rows ha haffected] at hlatest
      rw [isLatest_recalculated_iff rows hb (hfamily ▸ haffected)] at hlatest'
      have hle := hlatest'.2 a ha hlatest.1 hfamily
      have hge := hlatest.2 b hb hlatest'.1 hfamily.symm
      exact rows.keys.version a ha b hb hfamily (le_antisymm hle hge)
    · rw [recalculated_of_not_mem haffected] at hlatest
      rw [recalculated_of_not_mem (hfamily ▸ haffected)] at hlatest'
      exact rows.keys.latest a ha b hb hfamily hlatest hlatest'

theorem recalculateIsLatest_eq (now : ℕ) (affected : List Family) : recalculateIsLatest collation now affected rows =
    some ⟨rows.list.map (recalculated t collation now affected rows.list), keysHold_recalculated rows now affected⟩ := by
  unfold recalculateIsLatest
  have hdemoted : Rows.checked (rows.list.map (demote t now affected)) =
      some ⟨_, keysHold_demote rows now affected⟩ := checked_eq_some.mpr rfl
  rw [hdemoted, bind_some, checked_eq_some, map_map]
  rfl

/-- The recalculation settles the affected families and leaves the others. -/
theorem recalculateIsLatest_spec {rows rows' : Rows t} {now : ℕ} {affected : List Family}
    (h : recalculateIsLatest collation now affected rows = some rows') : (∀ f ∈ affected, Settled t rows'.list f) ∧
      ∀ f ∉ affected, SameFamily t rows.list rows'.list f := by
  rw [recalculateIsLatest_eq] at h
  cases h
  have hfamilies : ∀ r, (recalculated t collation now affected rows.list r).family t = r.family t := by simp [recalculated]
  refine ⟨fun f hf r' hr' hfamily => ?_, fun f hf r hfamily => ⟨fun hr => ?_, fun hr' => ?_⟩⟩
  · obtain ⟨r, hr, rfl⟩ := mem_map.mp hr'
    rw [hfamilies] at hfamily
    rw [isLatest_recalculated_iff rows hr (hfamily ▸ hf)]
    symm
    exact newest_map_iff hfamilies (by simp [recalculated]) (by simp [recalculated]) _ r
  · have hsame : recalculated t collation now affected rows.list r = r :=
      recalculated_of_not_mem (hfamily ▸ hf)
    exact mem_map.mpr ⟨r, hr, hsame⟩
  · obtain ⟨r₀, hr₀, heq⟩ := mem_map.mp hr'
    have hnot : r₀.family t ∉ affected := by
      rw [← hfamilies r₀, heq, hfamily]
      exact hf
    rw [recalculated_of_not_mem hnot] at heq
    exact heq ▸ hr₀

/-! ## What a batch touches -/

/-- A row as the server stores it: with a lineage root, and its ids cleaned. -/
structure Clean (r : VersionRow) : Prop where
  id : IsStoredId r.id
  idGoc : r.idGoc = some r.root
  root : IsStoredId r.root
  plan : ∀ plan, r.keHoachId = some plan → IsStoredId plan

variable {r : VersionRow} {id : String}

theorem root_of_idGoc {root : String} (h : r.idGoc = some root) (hstored : IsStoredId root) : r.root = root := by
  simp [VersionRow.root, h, hstored.ne_empty]

theorem trackedFamily_of_stored {id root : String} {idGoc keHoachId : Option String}
    (hroot : idGoc = some root) (hstored : IsStoredId root)
    (hplan : ∀ plan, keHoachId = some plan → IsStoredId plan) : trackedFamily t id idGoc keHoachId =
      some (root, if t.isPackage then keHoachId.getD "" else "") := by
  have hplan' : ((keHoachId.map Scalar.str).bind idOf).getD "" = keHoachId.getD "" := by
    cases hp : keHoachId with
    | none => rfl
    | some plan =>
      have hstored := hplan plan hp
      simp only [map_some, bind_some]
      rw [hstored]
  have hid : idOf (.str root) = some root := hstored
  simp [trackedFamily, hroot, hstored.ne_empty, hid, hplan']

theorem trackedFamily_eq (h : Clean r) : trackedFamily t r.id r.idGoc r.keHoachId = some (r.family t) :=
  trackedFamily_of_stored h.idGoc h.root h.plan

theorem find?_eq_some {rows : Rows t} {r : VersionRow} : rows.find? id = some r ↔ r ∈ rows.list ∧ r.id = id := by
  unfold Rows.find?
  constructor
  · intro h
    exact ⟨mem_of_find?_eq_some h, by simpa using find?_some h⟩
  · rintro ⟨hr, rfl⟩
    cases hfind : rows.list.find? fun o => o.id = r.id with
    | none => exact absurd (List.find?_eq_none.mp hfind r hr) (by simp)
    | some o =>
      have hid : o.id = r.id := by simpa using find?_some hfind
      rw [inj_on_of_nodup_map rows.keys.id (mem_of_find?_eq_some hfind) hr hid]

variable {rows rows' : Rows t} {stored : VersionRow} {tombstones : Dict String Tombstone} {data : RowData} {p p' : Progress t} {start : List VersionRow}

theorem sameFamily_update (h : rows.update id g = some rows') (hstored : rows.find? id = some stored)
    (hold : f ≠ stored.family t) (hnew : f ≠ (g stored).family t) : SameFamily t rows.list rows'.list f := by
  have hlist := checked_eq_some.mp h
  obtain ⟨hmem, hid⟩ := find?_eq_some.mp hstored
  intro r hfamily
  rw [hlist, mem_map]
  constructor
  · intro hr
    refine ⟨r, hr, if_neg fun hrid => hold ?_⟩
    rw [← hfamily, inj_on_of_nodup_map rows.keys.id hr hmem (hrid.trans hid.symm)]
  · rintro ⟨o, ho, heq⟩
    by_cases hoid : o.id = id
    · rw [if_pos hoid, inj_on_of_nodup_map rows.keys.id ho hmem (hoid.trans hid.symm)] at heq
      exact absurd (heq ▸ hfamily).symm hnew
    · rw [if_neg hoid] at heq
      exact heq ▸ ho

theorem mem_update (h : rows.update id g = some rows') {r : VersionRow} (hr : r ∈ rows'.list) :
    r ∈ rows.list ∨ ∃ stored, rows.find? id = some stored ∧ r = g stored := by
  rw [checked_eq_some.mp h, mem_map] at hr
  obtain ⟨o, ho, rfl⟩ := hr
  by_cases hoid : o.id = id
  · exact .inr ⟨o, find?_eq_some.mpr ⟨ho, hoid⟩, if_pos hoid⟩
  · exact .inl (by rwa [if_neg hoid])

theorem sameFamily_insert {r : VersionRow} (h : rows.insert r = some rows')
    (hnew : f ≠ (setLineage r).family t) : SameFamily t rows.list rows'.list f := by
  intro o hfamily
  rw [checked_eq_some.mp h, mem_append, mem_singleton]
  refine ⟨.inl, fun ho => ho.resolve_right ?_⟩
  rintro rfl
  exact hnew hfamily.symm

theorem sameFamily_delete (h : rows.delete id = some rows') (hstored : rows.find? id = some stored)
    (hold : f ≠ stored.family t) : SameFamily t rows.list rows'.list f := by
  obtain ⟨hmem, hid⟩ := find?_eq_some.mp hstored
  intro o hfamily
  rw [checked_eq_some.mp h, mem_filter]
  refine ⟨fun ho => ⟨ho, ?_⟩, fun ho => ho.1⟩
  rw [decide_eq_true_iff]
  intro hoid
  refine hold ?_
  rw [← hfamily, inj_on_of_nodup_map rows.keys.id ho hmem (hoid.trans hid.symm)]

def CleanTombstones (tombstones : Dict String Tombstone) : Prop :=
  ∀ id tombstone, tombstones.get? id = some tombstone → ∀ snapshot,
    tombstone.snapshot = some snapshot → snapshot.id = id ∧ Clean snapshot

/-- A batch has kept its hands off every family it has not noted. -/
structure Tracks (t : VersionedTable) (start : List VersionRow) (p : Progress t) : Prop where
  same : ∀ f ∉ p.affected, SameFamily t start p.store.rows.list f
  rows : ∀ r ∈ p.store.rows.list, Clean r
  tombstones : CleanTombstones p.store.tombstones

theorem cleanTombstones_set (h : CleanTombstones tombstones)
    {tombstone : Tombstone} (hnew : ∀ snapshot, tombstone.snapshot = some snapshot →
      snapshot.id = id ∧ Clean snapshot) : CleanTombstones (tombstones.set id tombstone) := by
  intro id' tombstone' hget
  rw [Dict.get?_set] at hget
  split at hget
  · rename_i heq
    cases hget
    rw [heq]
    exact hnew
  · exact h id' tombstone' hget

theorem cleanTombstones_markDeleted (h : CleanTombstones tombstones) (id : String) (version : ℕ) :
    CleanTombstones (markDeleted tombstones id version) := by
  unfold markDeleted
  split
  · rename_i old hold
    exact cleanTombstones_set h fun snapshot hs => h id old hold snapshot hs
  · exact cleanTombstones_set h (by simp)

theorem serialize_clean (w : Write) (previous : Option VersionRow) : IsStoredId (w.serialize previous).id ∧
    (∀ root, (w.serialize previous).idGoc = some root → IsStoredId root) ∧
    ∀ plan, (w.serialize previous).keHoachId = some plan → IsStoredId plan := by
  refine ⟨?_, ?_, ?_⟩
  · show IsStoredId ((idOf w.item.id).getD w.generatedId)
    cases hid : idOf w.item.id with
    | none => exact w.generated_stored
    | some id => exact isStoredId_of_idOf hid
  · intro root hroot
    rcases or_eq_some_iff.mp hroot with hroot | ⟨-, hroot⟩
    · rcases or_eq_some_iff.mp hroot with hroot | ⟨-, hroot⟩
      · exact isStoredId_of_idOf hroot
      · obtain ⟨r, -, hroot⟩ := bind_eq_some_iff.mp hroot
        obtain ⟨value, -, hroot⟩ := bind_eq_some_iff.mp hroot
        exact isStoredId_of_idOf hroot
    · exact isStoredId_of_idOf hroot
  · exact fun plan hplan => isStoredId_of_idOf hplan

section

variable (hclean : Clean r)
include hclean

theorem idGoc_of_lineageKept (h : lineageKept r data = true) : data.idGoc = some r.root := by
  simpa [lineageKept, hclean.idGoc, hclean.root.strip_ne] using h

theorem setLineage_of_clean : setLineage r = r := by simp [setLineage, hclean.idGoc, hclean.root.strip_ne]

theorem root_updatedRow (now expected : ℕ)
    (hlineage : lineageKept r data = true) : (updatedRow now data expected r).root = r.root :=
  root_of_idGoc (idGoc_of_lineageKept hclean hlineage) hclean.root

theorem clean_updatedRow {now expected : ℕ} (hlineage : lineageKept r data = true)
    (hplan : ∀ plan, data.keHoachId = some plan → IsStoredId plan) : Clean (updatedRow now data expected r) := by
  have hroot := root_updatedRow hclean now expected hlineage
  refine ⟨hclean.id, ?_, ?_, fun plan hp => ?_⟩
  · rw [hroot]
    exact idGoc_of_lineageKept hclean hlineage
  · rw [hroot]
    exact hclean.root
  · rcases or_eq_some_iff.mp hp with hp | ⟨-, hp⟩
    · exact hplan plan hp
    · exact hclean.plan plan hp

theorem family_updatedRow (now expected : ℕ)
    (hlineage : lineageKept r data = true) (hplan : ∀ plan, data.keHoachId = some plan → IsStoredId plan) :
    (updatedRow now data expected r).family t = r.family t ∨
      trackedFamily t data.id data.idGoc data.keHoachId = some ((updatedRow now data expected r).family t) := by
  have hroot := root_updatedRow hclean now expected hlineage
  have hfamily : (updatedRow now data expected r).family t =
      (r.root, if t.isPackage then (data.keHoachId.or r.keHoachId).getD "" else "") := by
    rw [VersionRow.family, hroot]
    rfl
  cases hp : data.keHoachId with
  | none =>
    left
    rw [hfamily, hp, none_or]
    rfl
  | some plan =>
    right
    rw [← hp, trackedFamily_of_stored (idGoc_of_lineageKept hclean hlineage) hclean.root hplan, hfamily, hp]
    rfl

end

theorem clean_insertedRow (now : ℕ) (hid : IsStoredId data.id) (hroot : ∀ root, data.idGoc = some root → IsStoredId root)
    (hplan : ∀ plan, data.keHoachId = some plan → IsStoredId plan) : Clean (setLineage (insertedRow now data)) ∧
      trackedFamily t data.id data.idGoc data.keHoachId = some ((setLineage (insertedRow now data)).family t) := by
  -- the trigger gives the new row a lineage root where the data have none
  obtain ⟨root, hstored, hrow, htracked⟩ : ∃ root, IsStoredId root ∧
      setLineage (insertedRow now data) = { insertedRow now data with idGoc := some root } ∧
      trackedFamily t data.id data.idGoc data.keHoachId = trackedFamily t data.id (some root) data.keHoachId := by
    cases hg : data.idGoc with
    | none =>
      refine ⟨data.id, hid, by simp [setLineage, insertedRow, hg], ?_⟩
      have hid' : idOf (.str data.id) = some data.id := hid
      simp [trackedFamily, hid.ne_empty, hid']
    | some root =>
      have hstored := hroot root hg
      refine ⟨root, hstored, ?_, rfl⟩
      simp [setLineage, insertedRow, hg, hstored.strip_ne]
  have hroot : (setLineage (insertedRow now data)).root = root := by
    rw [hrow]
    exact root_of_idGoc rfl hstored
  refine ⟨⟨?_, ?_, ?_, ?_⟩, ?_⟩
  · rw [hrow]
    exact hid
  · rw [hroot, hrow]
  · rw [hroot]
    exact hstored
  · rw [hrow]
    exact hplan
  · rw [htracked, trackedFamily_of_stored rfl hstored hplan, VersionRow.family, hroot, hrow]
    rfl

theorem writeItem_tracks {start : Store t} {now version : ℕ} {w : Write}
    (h : writeItem start now version p w = some p') (hp : Tracks t start.rows.list p) : Tracks t start.rows.list p' := by
  generalize hprevious : (idOf w.item.id).bind start.rows.find? = previous
  generalize hdata : w.serialize previous = data
  simp only [writeItem, hprevious, hdata] at h
  obtain ⟨hid, hroot, hplan⟩ := serialize_clean w previous
  rw [hdata] at hid hroot hplan
  by_cases hmissing : w.missingParent = true
  · -- only a tombstone is written
    simp only [hmissing, if_true] at h
    split at h
    · cases h
      exact ⟨hp.same, hp.rows, cleanTombstones_markDeleted hp.tombstones _ _⟩
    · exact absurd h (by simp)
  · simp only [hmissing] at h
    obtain ⟨rows, hrows, rfl⟩ := map_eq_some_iff.mp h
    cases hfound : (idOf w.item.id).bind p.store.rows.find? with
    | none =>
      simp only [hfound] at hrows
      obtain ⟨hclean, htracked⟩ := clean_insertedRow (t := t) now hid hroot hplan
      refine ⟨fun f hf => ?_, fun r hr => ?_, hp.tombstones⟩
      · rw [htracked] at hf
        simp only [mem_append, mem_toList, not_or] at hf
        exact (hp.same f hf.1.1).trans (sameFamily_insert hrows fun heq => hf.2 (heq ▸ rfl))
      · rw [checked_eq_some.mp hrows, mem_append, mem_singleton] at hr
        rcases hr with hr | rfl
        · exact hp.rows r hr
        · exact hclean
    | some stored =>
      simp only [hfound] at hrows
      obtain ⟨id, hitem, hstored⟩ := bind_eq_some_iff.mp hfound
      have hdataId : data.id = id := by
        rw [← hdata, Write.serialize, hitem]
        rfl
      split at hrows
      · rename_i expected hexpected
        split at hrows
        · rename_i hmatch
          have hcleanStored := hp.rows stored (find?_eq_some.mp hstored).1
          have hfamily := family_updatedRow (t := t) hcleanStored now expected hmatch.2 hplan
          rw [hdataId] at hrows
          refine ⟨fun f hf => ?_, fun r hr => ?_, hp.tombstones⟩
          · simp only [mem_append, mem_toList, not_or] at hf
            obtain ⟨⟨hbefore, hold⟩, hnew⟩ := hf
            -- the stored row was there before the batch, in the family noted for it
            have hne : f ≠ stored.family t := by
              rintro rfl
              have hmem := (hp.same _ hbefore stored rfl).mpr (find?_eq_some.mp hstored).1
              have hsame : start.rows.find? id = some stored :=
                find?_eq_some.mpr ⟨hmem, (find?_eq_some.mp hstored).2⟩
              rw [hitem, bind_some, hsame] at hprevious
              rw [← hprevious, bind_some, trackedFamily_eq hcleanStored] at hold
              exact hold rfl
            refine (hp.same f hbefore).trans (sameFamily_update hrows hstored hne ?_)
            rintro rfl
            rcases hfamily with heq | heq
            · exact hne heq
            · exact hnew heq
          · rcases mem_update hrows hr with hr | ⟨o, ho, rfl⟩
            · exact hp.rows r hr
            · rw [hstored] at ho
              cases ho
              exact clean_updatedRow hcleanStored hmatch.2 hplan
        · exact absurd hrows (by simp)
      · exact absurd hrows (by simp)

theorem applyDeletion_tracks {now : ℕ} {d : Deletion}
    (h : applyDeletion now p d = some p') (hp : Tracks t start p) : Tracks t start p' := by
  unfold applyDeletion at h
  split at h
  · cases h
    exact hp
  rename_i id _
  split at h
  · cases h
    exact hp
  rename_i record hrecord
  obtain ⟨hmem, hid⟩ := find?_eq_some.mp hrecord
  have hclean := hp.rows record hmem
  have htracked := trackedFamily_eq (t := t) hclean
  split at h
  · exact absurd h (by simp)
  split at h
  · cases h
    exact hp
  have hsnapshot : CleanTombstones (entomb p.store.tombstones id d.version record) :=
    cleanTombstones_set hp.tombstones fun s hs => some.inj hs ▸ ⟨hid, hclean⟩
  split at h
  · obtain ⟨rows, hrows, rfl⟩ := map_eq_some_iff.mp h
    have hcleanArchived : Clean (archivedRow now record) :=
      ⟨hclean.id, hclean.idGoc, hclean.root, hclean.plan⟩
    refine ⟨fun f hf => ?_, fun r hr => ?_, ?_⟩
    · rw [htracked] at hf
      simp only [mem_append, mem_toList, not_or] at hf
      have hne : f ≠ record.family t := fun heq => hf.2 (heq ▸ rfl)
      exact (hp.same f hf.1).trans (sameFamily_update hrows hrecord hne hne)
    · rcases mem_update hrows hr with hr | ⟨o, ho, rfl⟩
      · exact hp.rows r hr
      · rw [hrecord] at ho
        exact some.inj ho ▸ hcleanArchived
    · exact cleanTombstones_set hp.tombstones fun s hs => some.inj hs ▸
        ⟨hid, hclean.id, hclean.idGoc, hclean.root, hclean.plan⟩
  · obtain ⟨rows, hrows, rfl⟩ := map_eq_some_iff.mp h
    refine ⟨fun f hf => ?_, fun r hr => ?_, hsnapshot⟩
    · rw [htracked] at hf
      simp only [mem_append, mem_toList, not_or] at hf
      exact (hp.same f hf.1).trans (sameFamily_delete hrows hrecord fun heq => hf.2 (heq ▸ rfl))
    · rw [checked_eq_some.mp hrows] at hr
      exact hp.rows r (mem_filter.mp hr).1

structure SettledStore (s : Store t) : Prop where
  settled : ∀ f, Settled t s.rows.list f
  rows : ∀ r ∈ s.rows.list, Clean r
  tombstones : CleanTombstones s.tombstones

theorem Clean.of_ids {r r' : VersionRow} (h : Clean r) (hid : r'.id = r.id)
    (hidGoc : r'.idGoc = r.idGoc) (hplan : r'.keHoachId = r.keHoachId) : Clean r' := by
  have hroot : r'.root = r.root := by
    unfold VersionRow.root
    rw [hid, hidGoc]
  refine ⟨hid ▸ h.id, ?_, hroot ▸ h.root, hplan ▸ h.plan⟩
  rw [hidGoc, hroot]
  exact h.idGoc

theorem clean_recalculated {now : ℕ} {affected : List Family} {rows : List VersionRow}
    {r : VersionRow} (h : Clean r) : Clean (recalculated t collation now affected rows r) := by
  refine h.of_ids (by simp [recalculated]) ?_ ?_
  · unfold recalculated promote demote
    repeat' split
    all_goals rfl
  · unfold recalculated promote demote
    repeat' split
    all_goals rfl

theorem Tracks.settled {p : Progress t} (hp : Tracks t start p) (hstart : ∀ f, Settled t start f) {now : ℕ} {rows : Rows t}
    (h : recalculateIsLatest collation now p.affected p.store.rows = some rows) :
    (∀ f, Settled t rows.list f) ∧ ∀ r ∈ rows.list, Clean r := by
  obtain ⟨haffected, hothers⟩ := recalculateIsLatest_spec h
  refine ⟨fun f => ?_, fun r hr => ?_⟩
  · by_cases hf : f ∈ p.affected
    · exact haffected f hf
    · exact ((hp.same f hf).trans (hothers f hf)).settled (hstart f)
  · rw [recalculateIsLatest_eq] at h
    cases h
    obtain ⟨r₀, hr₀, rfl⟩ := mem_map.mp hr
    exact clean_recalculated (hp.rows r₀ hr₀)

theorem batch_settles {b : SyncBatch} {s s' : Store t} (h : b.execute collation s = some s')
    (hs : SettledStore s) : SettledStore s' := by
  unfold SyncBatch.execute at h
  split at h
  · exact absurd h (by simp)
  obtain ⟨written, hwritten, h⟩ := bind_eq_some_iff.mp h
  obtain ⟨rows, hrows, h⟩ := bind_eq_some_iff.mp h
  obtain ⟨deleted, hdeleted, h⟩ := bind_eq_some_iff.mp h
  obtain ⟨rows', hrows', h⟩ := bind_eq_some_iff.mp h
  obtain ⟨rows'', hrows'', rfl⟩ := map_eq_some_iff.mp h
  have htracks : Tracks t s.rows.list written :=
    foldlM_inv _ (Tracks t s.rows.list) (fun _ _ _ _ h => writeItem_tracks h) hwritten
      ⟨fun f _ => SameFamily.refl _ f, hs.rows, hs.tombstones⟩
  obtain ⟨hsettled, hclean⟩ := htracks.settled hs.settled hrows
  have htracks' : Tracks t rows.list deleted :=
    foldlM_inv _ (Tracks t rows.list) (fun _ _ _ _ h => applyDeletion_tracks h) hdeleted
      ⟨fun f _ => SameFamily.refl _ f, hclean, htracks.tombstones⟩
  obtain ⟨hsettled', hclean'⟩ := htracks'.settled hsettled hrows'
  -- what is touched in passing changes `updated_at` only
  have hlist := checked_eq_some.mp hrows''
  have hkept : ∀ r, (touch b.now b.touched r).family t = r.family t ∧
      (touch b.now b.touched r).archivedAt = r.archivedAt ∧
      (touch b.now b.touched r).phienBan = r.phienBan ∧
      (touch b.now b.touched r).isLatest = r.isLatest := by
    intro r
    unfold touch
    split <;> exact ⟨rfl, rfl, rfl, rfl⟩
  refine ⟨fun f r hr hfamily => ?_, fun r hr => ?_, htracks'.tombstones⟩
  · rw [hlist] at hr ⊢
    obtain ⟨r₀, hr₀, rfl⟩ := mem_map.mp hr
    rw [(hkept r₀).1] at hfamily
    rw [(hkept r₀).2.2.2, hsettled' f r₀ hr₀ hfamily]
    exact (newest_map_iff (fun r => (hkept r).1) (fun r => (hkept r).2.1) (fun r => (hkept r).2.2.1) _ r₀).symm
  · rw [hlist] at hr
    obtain ⟨r₀, hr₀, rfl⟩ := mem_map.mp hr
    unfold touch
    split
    · exact (hclean' r₀ hr₀).of_ids rfl rfl rfl
    · exact hclean' r₀ hr₀

/-! ## The restore -/

theorem exists_newest {rows : List VersionRow} {r : VersionRow} (hr : r ∈ rows) (hlive : r.archivedAt = none) :
    ∃ o ∈ rows, o.family t = r.family t ∧ Newest t rows o := by
  have hmem : r ∈ rows.filter fun o => o.archivedAt.isNone && o.family t = r.family t := by simp [hr, hlive]
  obtain ⟨o, ho⟩ := ne_none_iff_exists'.mp
    (argmax_eq_none.not.mpr (ne_nil_of_mem hmem) : List.argmax VersionRow.phienBan _ ≠ none)
  have hmax := fun x hx => le_of_mem_argmax (m := o) (a := x) hx ho
  have hfound := mem_filter.mp (argmax_mem ho)
  simp only [Bool.and_eq_true, isNone_iff_eq_none, decide_eq_true_eq] at hfound
  refine ⟨o, hfound.1, hfound.2.2, hfound.2.1, fun x hx hxlive hxfamily => hmax x ?_⟩
  simp [hx, hxlive, hxfamily, hfound.2.2]

variable {cmd : Restore}

variable {s : Store t}

variable {restored : VersionRow}

theorem restoredRow_spec (h : cmd.restoredRow s = some restored) (hs : SettledStore s) :
    restored.id = cmd.recordId ∧ restored.archivedAt = none ∧ restored.isLatest = true ∧
      Clean restored ∧ ∀ existing, s.rows.find? cmd.recordId = some existing →
        existing.archivedAt ≠ none ∧ existing.family t = restored.family t := by
  unfold Restore.restoredRow at h
  split at h
  · exact absurd h (by simp)
  obtain ⟨tombstone, htombstone, h⟩ := bind_eq_some_iff.mp h
  split at h
  · exact absurd h (by simp)
  obtain ⟨snapshot, hsnapshot, h⟩ := bind_eq_some_iff.mp h
  obtain ⟨hid, hclean⟩ := hs.tombstones _ _ htombstone _ hsnapshot
  split at h
  · rename_i existing hexisting
    split at h
    · exact absurd h (by simp)
    rename_i harchived
    cases h
    obtain ⟨hmem, hexid⟩ := find?_eq_some.mp hexisting
    refine ⟨hexid, rfl, rfl, (hs.rows existing hmem).of_ids rfl rfl rfl, ?_⟩
    intro other hother
    rw [hexisting] at hother
    cases hother
    exact ⟨by simpa using harchived, rfl⟩
  · rename_i hnone
    cases h
    have hclean' : Clean { snapshot with
        id := cmd.recordId, archivedAt := none, isLatest := true, updatedAt := cmd.now,
        rowVersion := snapshot.rowVersion + 1 } := hclean.of_ids hid.symm rfl rfl
    have hlineage : setLineage { snapshot with
        id := cmd.recordId, archivedAt := none, isLatest := true, updatedAt := cmd.now,
        rowVersion := snapshot.rowVersion + 1 } = { snapshot with
        id := cmd.recordId, archivedAt := none, isLatest := true, updatedAt := cmd.now,
        rowVersion := snapshot.rowVersion + 1 } := by
      have hlineage := setLineage_of_clean hclean'
      exact hlineage
    rw [hlineage]
    refine ⟨rfl, rfl, rfl, hclean', fun existing hexisting => ?_⟩
    rw [hnone] at hexisting
    exact absurd hexisting (by simp)

theorem mem_restoredRows (hrow : cmd.restoredRow s = some restored) (h : cmd.restoredRows s = some list) {r : VersionRow} :
    r ∈ list ↔ (r ∈ s.rows.list ∧ r.id ≠ cmd.recordId) ∨ r = restored := by
  rw [Restore.restoredRows, hrow, map_some] at h
  cases h
  cases hfound : s.rows.find? cmd.recordId with
  | none =>
    have hne : ∀ o ∈ s.rows.list, o.id ≠ cmd.recordId := by
      intro o ho heq
      rw [find?_eq_some.mpr ⟨ho, heq⟩] at hfound
      exact absurd hfound (by simp)
    rw [mem_append, mem_singleton]
    exact or_congr_left ⟨fun hr => ⟨hr, hne r hr⟩, fun hr => hr.1⟩
  | some existing =>
    obtain ⟨hmem, hid⟩ := find?_eq_some.mp hfound
    rw [mem_map]
    constructor
    · rintro ⟨o, ho, rfl⟩
      by_cases hoid : o.id = cmd.recordId
      · exact .inr (if_pos hoid)
      · exact .inl (by rw [if_neg hoid]; exact ⟨ho, hoid⟩)
    · rintro (⟨hr, hne⟩ | rfl)
      · exact ⟨r, hr, if_neg hne⟩
      · exact ⟨existing, hmem, if_pos hid⟩

theorem latestKey_restored_iff (hs : SettledStore s) (hrow : cmd.restoredRow s = some restored)
    (h : cmd.restoredRows s = some list) :
    LatestKey t list ↔ ∀ o ∈ s.rows.list, o.id ≠ cmd.recordId → o.family t = restored.family t → o.archivedAt ≠ none := by
  obtain ⟨hid, -, hflag, -, -⟩ := restoredRow_spec hrow hs
  have hmem := fun r => mem_restoredRows (r := r) hrow h
  constructor
  · intro hkey o ho hne hfamily hlive
    -- the newest version of the family carries the flag, and it is not the restored record
    obtain ⟨newest, hn, hnfamily, hnewest⟩ := exists_newest (t := t) ho hlive
    have hnflag : newest.isLatest = true :=
      (hs.settled (o.family t) newest hn hnfamily).mpr hnewest
    have hnid : newest.id ≠ cmd.recordId := by
      intro heq
      have hexisting := find?_eq_some.mpr ⟨hn, heq⟩
      exact ((restoredRow_spec hrow hs).2.2.2.2 newest hexisting).1 hnewest.1
    have heq := hkey newest ((hmem newest).mpr (.inl ⟨hn, hnid⟩)) restored ((hmem restored).mpr (.inr rfl))
      (hnfamily.trans hfamily) hnflag hflag
    exact hnid (heq.trans hid)
  · intro hall a ha b hb hfamily haflag hbflag
    -- no other row of the family carries the flag
    have hother : ∀ o ∈ s.rows.list, o.id ≠ cmd.recordId → o.family t = restored.family t → o.isLatest = true → False := by
      intro o ho hne hofamily hoflag
      exact hall o ho hne hofamily ((hs.settled _ o ho rfl).mp hoflag).1
    rcases (hmem a).mp ha with ⟨ha, hane⟩ | rfl
    · rcases (hmem b).mp hb with ⟨hb, -⟩ | rfl
      · exact s.rows.keys.latest a ha b hb hfamily haflag hbflag
      · exact (hother a ha hane hfamily haflag).elim
    · rcases (hmem b).mp hb with ⟨hb, hbne⟩ | rfl
      · exact (hother b hb hbne hfamily.symm hbflag).elim
      · rfl

theorem restore_settles {s s' : Store t} (h : cmd.execute s = some s') (hs : SettledStore s) : SettledStore s' := by
  unfold Restore.execute at h
  obtain ⟨list, hlist, h⟩ := bind_eq_some_iff.mp h
  obtain ⟨rows, hrows, rfl⟩ := map_eq_some_iff.mp h
  obtain ⟨restored, hrow, -⟩ := map_eq_some_iff.mp hlist
  obtain ⟨hid, hlive, hflag, hclean, -⟩ := restoredRow_spec hrow hs
  have hrows := checked_eq_some.mp hrows
  have hmem : ∀ r, r ∈ rows.list ↔ (r ∈ s.rows.list ∧ r.id ≠ cmd.recordId) ∨ r = restored :=
    fun r => by
      rw [hrows]
      exact mem_restoredRows hrow hlist
  have hkey : LatestKey t list := hrows ▸ rows.keys.latest
  have halone := (latestKey_restored_iff hs hrow hlist).mp hkey
  refine ⟨fun f r hr hfamily => ?_, fun r hr => ?_, ?_⟩
  · show r.isLatest = true ↔ Newest t rows.list r
    replace hr := (hmem r).mp hr
    by_cases hf : r.family t = restored.family t
    · rcases hr with ⟨hr, hne⟩ | rfl
      · -- an archived version of the restored family
        have harchived := halone r hr hne hf
        have hnot : ¬ Newest t s.rows.list r := fun hnewest => harchived hnewest.1
        rw [hs.settled _ r hr rfl]
        exact ⟨fun hnewest => absurd hnewest hnot, fun hnewest => absurd hnewest.1 harchived⟩
      · refine ⟨fun _ => ⟨hlive, fun o ho hoLive hofamily => ?_⟩, fun _ => hflag⟩
        rcases (hmem o).mp ho with ⟨ho, hone⟩ | rfl
        · exact absurd hoLive (halone o ho hone hofamily)
        · exact le_rfl
    · -- another family is what it was
      have hsame : SameFamily t s.rows.list rows.list (r.family t) := by
        intro o hofamily
        rw [hmem]
        refine ⟨fun ho => .inl ⟨ho, fun hoid => ?_⟩, fun ho => ?_⟩
        · have hexisting := find?_eq_some.mpr ⟨ho, hoid⟩
          exact hf (hofamily.symm.trans ((restoredRow_spec hrow hs).2.2.2.2 o hexisting).2)
        · rcases ho with ⟨ho, -⟩ | rfl
          · exact ho
          · exact absurd hofamily.symm hf
      have hr' : r ∈ s.rows.list := by
        rcases hr with ⟨hr, -⟩ | rfl
        · exact hr
        · exact absurd rfl hf
      rw [hs.settled _ r hr' rfl]
      exact hsame.newest_iff
  · rcases (hmem r).mp hr with ⟨hr, -⟩ | rfl
    · exact hs.rows r hr
    · exact hclean
  · intro id tombstone hget snapshot hsnapshot
    rw [Dict.get?_erase] at hget
    split at hget
    · exact absurd hget (by simp)
    · exact hs.tombstones id tombstone hget snapshot hsnapshot

theorem run_settles (hs : SettledStore s) (c : Command) : SettledStore (s.run collation c) := by
  cases c with
  | sync b =>
    show SettledStore ((b.execute collation s).getD s)
    cases h : b.execute collation s with
    | none => exact hs
    | some s' => exact batch_settles h hs
  | restore cmd =>
    show SettledStore ((cmd.execute s).getD s)
    cases h : cmd.execute s with
    | none => exact hs
    | some s' => exact restore_settles h hs

theorem runAll_settles (hs : SettledStore s) (commands : List Command) : SettledStore (s.runAll collation commands) :=
  foldl_inv _ SettledStore commands (fun _ c _ h => run_settles h c) hs

/-- The latest versions of a table: a family with a version that is not archived has exactly one
row with the flag, the largest of those by version number, `updated_at` and id; a family without
has none. -/
structure LatestVersions (t : VersionedTable) (collation : Collation) (rows : List VersionRow) : Prop where
  one : ∀ f, (∃ r ∈ rows, r.family t = f ∧ r.archivedAt = none) →
    ∃ r ∈ rows, r.family t = f ∧ r.archivedAt = none ∧ r.isLatest = true ∧
      (∀ o ∈ rows, o.family t = f → o.isLatest = true → o = r) ∧
      ∀ o ∈ rows, o.family t = f → o.archivedAt = none → o.rank collation ≤ r.rank collation
  none : ∀ f, (∀ r ∈ rows, r.family t = f → r.archivedAt ≠ none) → ∀ r ∈ rows, r.family t = f → r.isLatest = false

theorem SettledStore.latestVersions (hs : SettledStore s) : LatestVersions t collation s.rows.list := by
  refine ⟨?_, ?_⟩
  · rintro f ⟨r, hr, rfl, hlive⟩
    obtain ⟨newest, hn, hfamily, hnewest⟩ := exists_newest (t := t) hr hlive
    have hflag := (hs.settled _ newest hn hfamily).mpr hnewest
    have hwinner := (@isWinner_iff_newest t collation s.rows _ hn).mpr hnewest
    refine ⟨newest, hn, hfamily, hnewest.1, hflag, fun o ho hofamily hoflag => ?_, fun o ho hofamily holive => ?_⟩
    · have hid := s.rows.keys.latest o ho newest hn (hofamily.trans hfamily.symm) hoflag hflag
      exact inj_on_of_nodup_map s.rows.keys.id ho hn hid
    · simp only [isWinner, Bool.and_eq_true, all_eq_true] at hwinner
      simpa [holive, hofamily.trans hfamily.symm] using hwinner.2 o ho
  · intro f harchived r hr hfamily
    cases hflag : r.isLatest with
    | false => rfl
    | true => exact absurd ((hs.settled f r hr hfamily).mp hflag).1 (harchived r hr hfamily)

/-- After any sequence of commands the flag marks the latest version of every family; and a
restore whose own checks pass meets the key of the latest version if and only if its family has
no other version that is not archived. -/
theorem latest_versions_and_restore_iff (collation : Collation) {s : Store t} (hs : SettledStore s)
    (commands : List Command) : LatestVersions t collation (s.runAll collation commands).rows.list ∧
      ∀ cmd restored list, Restore.restoredRow cmd (s.runAll collation commands) = some restored →
        cmd.restoredRows (s.runAll collation commands) = some list →
        (LatestKey t list ↔ ∀ o ∈ (s.runAll collation commands).rows.list, o.id ≠ cmd.recordId →
          o.family t = restored.family t → o.archivedAt ≠ none) := by
  have hsettled : SettledStore (s.runAll collation commands) := runAll_settles hs commands
  exact ⟨hsettled.latestVersions, fun cmd restored list hrow hlist => latestKey_restored_iff hsettled hrow hlist⟩

def emptyStore (t : VersionedTable) : Store t :=
  ⟨⟨[], ⟨nodup_nil, by simp, by simp [LatestKey]⟩⟩, .empty⟩

def newVersion (id root : String) (phienBan : ℕ) : Write where
  item := ⟨.str id, .str root, .none, some phienBan, none, none⟩
  generatedId := "drawn"
  generated_stored := by decide
  missingParent := false

def archivedFirstVersion : List Command :=
  [.sync ⟨false, 10, 1, [newVersion "a" "a" 0, newVersion "b" "a" 1], [], []⟩,
    .sync ⟨false, 20, 2, [], [⟨.str "a", some 1, true, 2⟩], []⟩]

def restoreFirstVersion : Restore := ⟨false, "a", 2, 30⟩

theorem settledStore_empty : SettledStore (emptyStore t) := by
  refine ⟨fun f r hr => ?_, fun r hr => ?_, fun id tombstone h => ?_⟩
  · exact absurd hr (by simp [emptyStore])
  · exact absurd hr (by simp [emptyStore])
  · exact absurd h (by simp [emptyStore])

/-- The commands commit, the checks of the restore pass, and its statement leaves two latest
versions in the family. -/
theorem restore_violates_latest_key : ∃ list, restoreFirstVersion.restoredRows
      ((emptyStore .chuDauTu).runAll .codePoints archivedFirstVersion) = some list ∧
    ¬ LatestKey .chuDauTu list :=
  ⟨[⟨"a", some "a", none, 0, true, none, 30, 2⟩, ⟨"b", some "a", none, 1, true, none, 20, 1⟩], by decide, by decide⟩

theorem latest_versions_and_restore_iff_investor : LatestVersions .chuDauTu .codePoints
      ((emptyStore .chuDauTu).runAll .codePoints archivedFirstVersion).rows.list ∧
    ((emptyStore .chuDauTu).runAll .codePoints archivedFirstVersion).rows.list =
      [⟨"a", some "a", none, 0, false, some 20, 20, 1⟩, ⟨"b", some "a", none, 1, true, none, 20, 1⟩] :=
  ⟨(latest_versions_and_restore_iff .codePoints settledStore_empty archivedFirstVersion).1, by decide⟩

end Bidding.Versions
