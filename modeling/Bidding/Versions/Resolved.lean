import Bidding.Versions.Resolver

/-!
# One latest version

The comparison of versions orders any two records with different ids, so the choices that go by it name the same record.
Marking and removing go by the version number: they agree exactly where neither the highest version number of a family nor
the next one occurs twice.
-/

namespace Bidding.Resolver

open Foundations Bidding.Tables List

variable {secondary : Option (VersionRecord → String)} {records : List VersionRecord} {a b c target latest : VersionRecord}

theorem stableIdComparison_pos_iff (a b : VersionRecord) : 0 < stableIdComparison a b ↔ textLess a.id b.id = true := by
  unfold stableIdComparison
  rw [if_neg a.hasId, if_neg b.hasId]
  by_cases hid : a.id = b.id
  · rw [if_pos hid, hid, textLess_irrefl]
    simp
  · rw [if_neg hid]
    by_cases hless : textLess a.id b.id = true
    · simp [hless]
    · rw [if_neg hless]
      simp [hless]

theorem isNewer_iff (a b : VersionRecord) : isNewer secondary a b = true ↔
    versionNumber b < versionNumber a ∨ (versionNumber a = versionNumber b ∧
      (secondaryNumber secondary b < secondaryNumber secondary a ∨ (secondaryNumber secondary a = secondaryNumber secondary b ∧
        (latestMarker b < latestMarker a ∨ (latestMarker a = latestMarker b ∧ textLess a.id b.id = true))))) := by
  unfold isNewer compareVersionCandidates
  rw [decide_eq_true_iff, ← stableIdComparison_pos_iff]
  split_ifs <;> grind

def NotNewer (secondary : Option (VersionRecord → String)) (a b : VersionRecord) : Prop := isNewer secondary a b = false

theorem isNewer_asymm (h : isNewer secondary a b = true) : isNewer secondary b a = false := by
  rw [← Bool.not_eq_true, isNewer_iff]
  rw [isNewer_iff] at h
  have hids : textLess a.id b.id = true → textLess b.id a.id = false := textLess_asymm
  grind

section

variable (h : NotNewer secondary a b)
include h

theorem notNewer_trans (h' : NotNewer secondary b c) : NotNewer secondary a c := by
  unfold NotNewer at *
  rw [← Bool.not_eq_true, isNewer_iff] at *
  have htotal := textLess_total a.id b.id
  have htotal' := textLess_total b.id c.id
  have htrans : textLess a.id c.id = true → textLess c.id b.id = true → textLess a.id b.id = true := textLess_trans
  grind

theorem id_eq_of_notNewer (h' : NotNewer secondary b a) : a.id = b.id := by
  unfold NotNewer at *
  rw [← Bool.not_eq_true, isNewer_iff] at *
  have htotal := textLess_total a.id b.id
  grind

theorem versionNumber_le_of_notNewer : versionNumber a ≤ versionNumber b := by
  unfold NotNewer at h
  rw [← Bool.not_eq_true, isNewer_iff, not_or] at h
  exact not_lt.mp h.1

end

theorem ranks_isNewer : Ranks (isNewer secondary) (NotNewer secondary) where
  refl a := by
    cases h : isNewer secondary a a with
    | false => exact h
    | true => exact isNewer_asymm h
  trans _ _ _ := notNewer_trans
  taken _ _ := isNewer_asymm
  left _ _ h := h
  strict _ _ h h' := Bool.false_ne_true (h'.symm.trans h)

theorem notNewer_total (a b : VersionRecord) : NotNewer secondary a b ∨ NotNewer secondary b a := by
  cases h : isNewer secondary a b with
  | false => exact .inl h
  | true => exact .inr (isNewer_asymm h)

theorem eq_of_id (hids : (records.map (·.id)).Nodup) (ha : a ∈ records) (hb : b ∈ records) (h : a.id = b.id) : a = b :=
  inj_on_of_nodup_map hids ha hb h

theorem separates (hids : (records.map (·.id)).Nodup) : Separates (NotNewer secondary) records :=
  fun _ ha _ hb h h' => eq_of_id hids ha hb (id_eq_of_notNewer h h')

theorem versionFamily_congr (records : List VersionRecord) (h : versionRootId a = versionRootId b) :
    versionFamily records a = versionFamily records b := by
  unfold versionFamily
  rw [h]

theorem nodup_family (hids : (records.map (·.id)).Nodup) (target : VersionRecord) :
    ((versionFamily records target).map (·.id)).Nodup :=
  hids.sublist (List.Sublist.map _ filter_sublist)

theorem mem_family_self (hmem : target ∈ records) : target ∈ versionFamily records target :=
  mem_filter.mpr ⟨hmem, decide_eq_true rfl⟩

theorem exists_foremost (hmem : target ∈ records) :
    ∃ latest, IsForemost (NotNewer secondary) (versionFamily records target) latest := by
  have hranks : Ranks (isNewer secondary) (NotNewer secondary) := ranks_isNewer
  obtain ⟨latest, -, h⟩ := hranks.exists_foremost (ne_nil_of_mem (mem_family_self hmem))
  exact ⟨latest, h⟩

theorem selectLatestVersion_eq_iff (hids : (records.map (·.id)).Nodup) :
    selectLatestVersion secondary records = some latest ↔ IsForemost (NotNewer secondary) records latest :=
  ranks_isNewer.foldl_eq_some_iff (separates hids)

theorem find?_id (hids : (records.map (·.id)).Nodup) (hmem : target ∈ records) :
    (records.find? fun record => record.id = target.id) = some target := by
  cases hfind : records.find? fun record => record.id = target.id with
  | none =>
    have hno := List.find?_eq_none.mp hfind target hmem
    exact absurd (decide_eq_true rfl) hno
  | some found =>
    have hid := find?_some hfind
    rw [eq_of_id hids (mem_of_find?_eq_some hfind) hmem (of_decide_eq_true hid)]

theorem versionRootId_ne (record : VersionRecord) : versionRootId record ≠ "" := by
  unfold versionRootId
  split
  · assumption
  · exact record.hasId

theorem namesLatest (hids : (records.map (·.id)).Nodup) (hmem : target ∈ records)
    (hlatest : IsForemost (NotNewer secondary) (versionFamily records target) latest) :
    NamesLatest secondary records target latest := by
  have hfamily := nodup_family hids target
  have hselected := (selectLatestVersion_eq_iff hfamily).mpr hlatest
  have hrooted : (records.filter fun record => versionRootId record ≠ "") = records :=
    filter_eq_self.mpr fun record _ => decide_eq_true (versionRootId_ne record)
  constructor
  · exact hselected
  · unfold resolveLatestVersion
    dsimp only
    rw [hselected]
    rfl
  · unfold resolveLatestVersion
    dsimp only
    rw [if_neg target.hasId, find?_id hids hmem]
    dsimp only
    rw [hselected]
    rfl
  · intro hroot
    unfold resolveLatestVersion
    dsimp only
    rw [if_neg (versionRootId_ne target)]
    cases hfind : records.find? fun record => record.id = versionRootId target with
    | none => exact hselected
    | some requested =>
      have hid := find?_some hfind
      have hsame := hroot requested (mem_of_find?_eq_some hfind) (of_decide_eq_true hid)
      dsimp only
      rw [versionFamily_congr records hsame, hselected]
      rfl
  · unfold selectLatestVersionsByRoot
    rw [hrooted]
    exact ranks_isNewer.filter_values (separates hids) hlatest
  · exact ranks_isNewer.head?_mergeSort notNewer_total (separates hfamily) hlatest
  · exact ranks_isNewer.head?_mergeSort notNewer_total (ranks_isNewer.separates_values (separates hfamily))
      (ranks_isNewer.foremost_values (separates hfamily) hlatest)

variable {family : List VersionRecord}

theorem highestVersion_spec (hne : family ≠ []) : (∃ record ∈ family, versionNumber record = highestVersion family) ∧
    ∀ record ∈ family, versionNumber record ≤ highestVersion family := by
  have hfold (others : List VersionRecord) (first : VersionRecord) : ∃ record ∈ first :: others,
      others.foldl (fun highest record => if highest < versionNumber record then versionNumber record else highest)
        (versionNumber first) = versionNumber record ∧ ∀ o ∈ first :: others, versionNumber o ≤ versionNumber record := by
    induction others generalizing first with
    | nil => exact ⟨first, by simp⟩
    | cons next others ih =>
      rw [foldl_cons]
      by_cases hlt : versionNumber first < versionNumber next
      · obtain ⟨record, hmem, heq, hle⟩ := ih next
        refine ⟨record, mem_cons_of_mem first hmem, by rw [if_pos hlt, heq], fun o ho => ?_⟩
        rcases mem_cons.mp ho with rfl | ho
        · exact le_trans (le_of_lt hlt) (hle next mem_cons_self)
        · exact hle o ho
      · obtain ⟨record, hmem, heq, hle⟩ := ih first
        have hfirst := hle first mem_cons_self
        refine ⟨record, ?_, by rw [if_neg hlt, heq], fun o ho => ?_⟩
        · rcases mem_cons.mp hmem with rfl | hmem
          · exact mem_cons_self
          · exact mem_cons_of_mem first (mem_cons_of_mem next hmem)
        · rcases mem_cons.mp ho with rfl | ho
          · exact hfirst
          · rcases mem_cons.mp ho with rfl | ho
            · exact le_trans (not_lt.mp hlt) hfirst
            · exact hle o (mem_cons_of_mem first ho)
  cases family with
  | nil => exact absurd rfl hne
  | cons first others =>
    obtain ⟨record, hmem, heq, hle⟩ := hfold others first
    refine ⟨⟨record, hmem, heq.symm⟩, fun o ho => ?_⟩
    exact le_trans (hle o ho) (le_of_eq heq.symm)

theorem mem_topOf_iff : a ∈ topOf family ↔ a ∈ family ∧ ∀ c ∈ family, versionNumber c ≤ versionNumber a := by
  unfold topOf
  rw [mem_filter, decide_eq_true_iff]
  refine and_congr_right fun hmem => ?_
  obtain ⟨⟨top, htop, heq⟩, hle⟩ := highestVersion_spec (ne_nil_of_mem hmem)
  constructor
  · intro ha c hc
    rw [ha]
    exact hle c hc
  · intro ha
    exact le_antisymm (hle a hmem) (heq ▸ ha top htop)

theorem foremost_mem_topOf (h : IsForemost (NotNewer secondary) family latest) : latest ∈ topOf family :=
  mem_topOf_iff.mpr ⟨h.1, fun c hc => versionNumber_le_of_notNewer (h.2 c hc)⟩

theorem topAlone_iff (hfamily : (family.map (·.id)).Nodup)
    (hlatest : IsForemost (NotNewer secondary) family latest) : TopAlone family ↔ topOf family = [latest] := by
  have htop := foremost_mem_topOf hlatest
  constructor
  · intro halone
    apply filter_eq_singleton hfamily.of_map hlatest.1
    intro b hb
    constructor
    · intro hb'
      have hbTop := mem_topOf_iff.mp (mem_filter.mpr ⟨hb, hb'⟩)
      exact halone b hb latest hlatest.1 hbTop.2 (mem_topOf_iff.mp htop).2
    · rintro rfl
      exact (mem_filter.mp htop).2
  · intro honly x hx y hy hxTop hyTop
    have hx' := mem_topOf_iff.mpr ⟨hx, hxTop⟩
    have hy' := mem_topOf_iff.mpr ⟨hy, hyTop⟩
    rw [honly, mem_singleton] at hx' hy'
    rw [hx', hy']

variable (latestVersion : ℚ)

variable (record : VersionRecord)

theorem id_markRecord : (markRecord latestVersion record).id = record.id := by
  unfold markRecord
  dsimp only

theorem isLatest_markRecord : (markRecord latestVersion record).isLatest = decide (versionNumber record = latestVersion) := by
  unfold markRecord
  dsimp only

theorem versionRootId_markRecord : versionRootId (markRecord latestVersion record) = versionRootId record := by
  unfold versionRootId markRecord
  dsimp only

theorem map_id_markFamily (target : VersionRecord) (records : List VersionRecord) :
    (markFamily latestVersion target records).map (·.id) = records.map (·.id) := by
  unfold markFamily
  rw [map_map]
  apply map_congr_left
  intro record _
  rw [Function.comp_apply]
  by_cases hroot : versionRootId record = versionRootId target
  · rw [if_pos hroot, id_markRecord]
  · rw [if_neg hroot]

theorem flaggedOf_markFamily (target : VersionRecord) (records : List VersionRecord) :
    flaggedOf (markFamily latestVersion target records) target =
      ((versionFamily records target).filter fun record => versionNumber record = latestVersion).map flagged := by
  induction records with
  | nil => rfl
  | cons record records ih =>
    unfold flaggedOf markFamily versionFamily at ih ⊢
    rw [map_cons, filter_cons (x := record)]
    by_cases hroot : versionRootId record = versionRootId target
    · have hmarked := (versionRootId_markRecord latestVersion record).trans hroot
      rw [if_pos hroot, if_pos (decide_eq_true hroot), filter_cons, if_pos (decide_eq_true hmarked), filter_cons,
        filter_cons, isLatest_markRecord]
      by_cases hversion : versionNumber record = latestVersion
      · have hflagged : markRecord latestVersion record = flagged record := by
          unfold markRecord flagged
          rw [decide_eq_true hversion]
        rw [if_pos (decide_eq_true hversion), if_pos (decide_eq_true hversion), map_cons, ih, hflagged]
      · rw [if_neg fun h => hversion (of_decide_eq_true h), if_neg fun h => hversion (of_decide_eq_true h), ih]
    · rw [if_neg hroot, if_neg fun h => hroot (of_decide_eq_true h), filter_cons,
        if_neg fun h => hroot (of_decide_eq_true h), ih]

theorem markLatestVersion_flagged (hne : versionFamily records target ≠ []) :
    flaggedOf (markLatestVersion records target).1 target = (topOf (versionFamily records target)).map flagged ∧
      (markLatestVersion records target).2 = ((topOf (versionFamily records target)).map flagged).getLast? ∧
        (markLatestVersion records target).1.map (·.id) = records.map (·.id) := by
  have hflagged := flaggedOf_markFamily (highestVersion (versionFamily records target)) target records
  unfold markLatestVersion
  rw [if_neg hne]
  refine ⟨hflagged, ?_, map_id_markFamily _ target records⟩
  exact congrArg List.getLast? hflagged

theorem map_flagged_eq_singleton {l : List VersionRecord} (hmem : a ∈ l) (h : l.map flagged = [b]) : l = [a] := by
  obtain ⟨c, rfl, -⟩ := map_eq_singleton_iff.mp h
  rw [mem_singleton.mp hmem]

section

variable (hids : (records.map (·.id)).Nodup)
include hids

theorem marksLatest_iff (hmem : target ∈ records)
    (hlatest : IsForemost (NotNewer secondary) (versionFamily records target) latest) :
    MarksLatest records target latest ↔ TopAlone (versionFamily records target) := by
  obtain ⟨hflagged, hreturned, -⟩ := markLatestVersion_flagged (ne_nil_of_mem (mem_family_self hmem))
  unfold MarksLatest
  rw [hflagged, hreturned, topAlone_iff (nodup_family hids target) hlatest]
  constructor
  · rintro ⟨hone, -⟩
    exact map_flagged_eq_singleton (foremost_mem_topOf hlatest) hone
  · intro hone
    rw [hone]
    exact ⟨rfl, rfl⟩

/-! ## Removing -/

theorem deletionFamily_eq (hmem : target ∈ records) : deletionFamily records target = versionFamily records target := by
  unfold deletionFamily
  rw [if_neg target.hasId]
  conv_rhs => rw [← map_id (versionFamily records target)]
  apply map_congr_left
  intro record hrecord
  by_cases hid : record.id = target.id
  · rw [if_pos hid, eq_of_id hids (mem_of_mem_filter hrecord) hmem hid]
    rfl
  · rw [if_neg hid]
    rfl

theorem family_without_latest (hone : topOf (versionFamily records target) = [latest]) :
    versionFamily (records.filter fun record => record.id ≠ latest.id) target = belowTop (versionFamily records target) := by
  have hlatest : latest ∈ topOf (versionFamily records target) := by
    rw [hone]
    exact mem_singleton_self latest
  unfold belowTop
  rw [versionFamily, filter_comm]
  apply filter_congr
  intro record hrecord
  rw [decide_eq_decide, not_iff_not]
  constructor
  · intro hid
    rw [eq_of_id hids (mem_of_mem_filter hrecord) (mem_of_mem_filter (mem_of_mem_filter hlatest)) hid]
    exact of_decide_eq_true (mem_filter.mp hlatest).2
  · intro hversion
    have htop : record ∈ topOf (versionFamily records target) := mem_filter.mpr ⟨hrecord, decide_eq_true hversion⟩
    rw [hone, mem_singleton] at htop
    rw [htop]

end

theorem markLatestVersion_congr (records : List VersionRecord) (h : versionRootId a = versionRootId b) :
    markLatestVersion records a = markLatestVersion records b := by
  unfold markLatestVersion markFamily
  rw [versionFamily_congr records h, h]
  simp only [versionFamily_congr _ h]

theorem flaggedOf_eq_nil (h : versionFamily records target = []) : flaggedOf records target = [] := by
  unfold flaggedOf
  rw [h]
  rfl

theorem map_id_without (records removed : List VersionRecord) (h : removed = [latest]) :
    (records.filter fun record => record.id ∉ removed.map (·.id)) = records.filter fun record => record.id ≠ latest.id := by
  apply filter_congr
  intro record _
  rw [h]
  simp

theorem removeLatestVersion_spec (hids : (records.map (·.id)).Nodup) (hmem : target ∈ records) :
    ∃ remaining, remaining = records.filter (fun record => record.id ∉ (topOf (versionFamily records target)).map (·.id)) ∧
      (removeLatestVersion records target).removed = topOf (versionFamily records target) ∧
      (removeLatestVersion records target).records.map (·.id) = remaining.map (·.id) ∧
      flaggedOf (removeLatestVersion records target).records target = (topOf (versionFamily remaining target)).map flagged := by
  refine ⟨_, rfl, ?_⟩
  unfold removeLatestVersion
  dsimp only
  rw [deletionFamily_eq hids hmem, if_neg (ne_nil_of_mem (mem_family_self hmem))]
  generalize records.filter (fun record => record.id ∉ (topOf (versionFamily records target)).map (·.id)) = remaining
  cases hfamily : versionFamily remaining target with
  | nil =>
    refine ⟨rfl, rfl, ?_⟩
    exact flaggedOf_eq_nil hfamily
  | cons first others =>
    have hfirst : first ∈ versionFamily remaining target := by
      rw [hfamily]
      exact mem_cons_self
    have hroot : versionRootId first = versionRootId target := of_decide_eq_true (mem_filter.mp hfirst).2
    obtain ⟨hflagged, -, hkept⟩ := markLatestVersion_flagged (ne_nil_of_mem hfirst)
    dsimp only
    refine ⟨rfl, ?_, ?_⟩
    · rw [markLatestVersion_congr remaining hroot]
      exact hkept
    · rw [markLatestVersion_congr remaining hroot, hflagged, hfamily]

theorem next_iff (hfamily : (family.map (·.id)).Nodup) :
    (topOf family).map flagged = ((selectLatestVersion secondary family).map flagged).toList ↔ TopAlone family := by
  by_cases hempty : family = []
  · rw [hempty]
    simp [topOf, selectLatestVersion, TopAlone]
  have hranks : Ranks (isNewer secondary) (NotNewer secondary) := ranks_isNewer
  obtain ⟨next, -, hnext⟩ := hranks.exists_foremost hempty
  rw [(selectLatestVersion_eq_iff hfamily).mpr hnext, topAlone_iff hfamily hnext, Option.map_some, Option.toList_some]
  constructor
  · exact map_flagged_eq_singleton (foremost_mem_topOf hnext)
  · intro h
    rw [h]
    rfl

section

variable (hids : (records.map (·.id)).Nodup)
include hids

theorem removesLatest_iff (hmem : target ∈ records)
    (hlatest : IsForemost (NotNewer secondary) (versionFamily records target) latest) :
    RemovesLatest secondary records target latest ↔ NoTie (versionFamily records target) := by
  obtain ⟨remaining, hremaining, hremoved, hkept, hflagged⟩ := removeLatestVersion_spec hids hmem
  have hfamily := nodup_family hids target
  have hwithout := nodup_family (hids.sublist (List.Sublist.map (fun record : VersionRecord => record.id)
    (filter_sublist (l := records) (p := fun record => record.id ≠ latest.id)))) target
  unfold NoTie
  constructor
  · rintro ⟨hone, -, hnext⟩
    rw [hremoved] at hone
    rw [hflagged, hremaining, map_id_without records _ hone, next_iff hwithout, family_without_latest hids hone] at hnext
    exact ⟨(topAlone_iff hfamily hlatest).mpr hone, hnext⟩
  · rintro ⟨halone, hbelow⟩
    have hone := (topAlone_iff hfamily hlatest).mp halone
    rw [map_id_without records _ hone] at hremaining
    constructor
    · rw [hremoved, hone]
    · rw [hkept, hremaining]
    · rw [hflagged, hremaining, next_iff hwithout, family_without_latest hids hone]
      exact hbelow

theorem selectLatestVersion_perm {records' : List VersionRecord}
    (hperm : records'.Perm records) : selectLatestVersion secondary records' = selectLatestVersion secondary records :=
  ranks_isNewer.foldl_perm (separates hids) hperm

theorem NamesLatest.foremost (h : NamesLatest secondary records target latest) :
    IsForemost (NotNewer secondary) (versionFamily records target) latest :=
  (selectLatestVersion_eq_iff (nodup_family hids target)).mp h.selected

end

/-- There is one notion of the latest version of a family, in whatever order the records stand and whatever the secondary
version is, if and only if neither the highest version number of the family nor the next one is that of two records. -/
theorem oneLatest_iff (secondary : Option (VersionRecord → String)) (hids : (records.map (·.id)).Nodup)
    (hmem : target ∈ records) : OneLatest secondary records target ↔ NoTie (versionFamily records target) := by
  constructor
  · rintro ⟨-, latest, hnames, -, hremoves⟩
    exact (removesLatest_iff hids hmem (hnames.foremost hids)).mp hremoves
  · intro hties
    have hforemost : ∃ latest, IsForemost (NotNewer secondary) (versionFamily records target) latest := exists_foremost hmem
    obtain ⟨latest, hlatest⟩ := hforemost
    refine ⟨fun records' hperm => selectLatestVersion_perm hids hperm, latest, namesLatest hids hmem hlatest, ?_, ?_⟩
    · exact (marksLatest_iff hids hmem hlatest).mpr hties.1
    · exact (removesLatest_iff hids hmem hlatest).mpr hties

def planVersion (id phienBan : String) (hasId : id ≠ "") : VersionRecord := ⟨id, "root", phienBan, true, .empty, hasId⟩

def numberedPlan : List VersionRecord := [planVersion "a" "00" (by decide), planVersion "b" "01" (by decide)]

def duplicatePlan : List VersionRecord := [planVersion "a" "01" (by decide), planVersion "b" "01" (by decide)]

theorem oneLatest_numberedPlan : OneLatest none numberedPlan (planVersion "a" "00" (by decide)) := by
  apply (oneLatest_iff none (by decide) mem_cons_self).mpr
  unfold NoTie TopAlone
  decide +kernel

/-- Not every family has one latest version: of two records with one number both are flagged, and both are removed. -/
theorem duplicatePlan_not_oneLatest : ¬∀ (secondary : Option (VersionRecord → String)) (records : List VersionRecord)
    (target : VersionRecord), (records.map (·.id)).Nodup → target ∈ records → OneLatest secondary records target := by
  intro h
  have hids : (duplicatePlan.map (·.id)).Nodup := by decide
  obtain ⟨-, latest, hnames, hmarks, -⟩ := h none duplicatePlan (planVersion "a" "01" (by decide)) hids mem_cons_self
  have halone := (marksLatest_iff hids mem_cons_self (hnames.foremost hids)).mp hmarks
  have htie : ¬TopAlone (versionFamily duplicatePlan (planVersion "a" "01" (by decide))) := by
    unfold TopAlone
    decide +kernel
  exact htie halone

end Bidding.Resolver
