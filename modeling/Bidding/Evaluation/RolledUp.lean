import Bidding.Evaluation.Hierarchy

/-!
# When rolling up is right

The results and the automatic results of a report are each rolled up in the order of the criteria that are computed. This is
right for every report exactly when no criterion is computed before a child of it.
-/

namespace Bidding.Evaluation

open Foundations List

variable {criteria : List Criterion}

variable (criterion : Criterion)

theorem markCriterion_eq : ∃ marked, markCriterion criteria criterion = { criterion with hasChildren := marked } := by
  unfold markCriterion
  exact ⟨_, rfl⟩

theorem hasChildren_mark : (markCriterion criteria criterion).hasChildren = !(directChildren criteria criterion).isEmpty := by
  simp only [markCriterion]

theorem resultType_mark : (markCriterion criteria criterion).resultType = criterion.resultType := by
  obtain ⟨marked, hmarked⟩ := @markCriterion_eq criteria criterion
  rw [hmarked]

theorem id_mark : (markCriterion criteria criterion).id = criterion.id := by
  obtain ⟨marked, hmarked⟩ := @markCriterion_eq criteria criterion
  rw [hmarked]

theorem sttParts_mark : sttParts (markCriterion criteria criterion) = sttParts criterion := by
  obtain ⟨marked, hmarked⟩ := @markCriterion_eq criteria criterion
  have htext : sttText { criterion with hasChildren := marked } = sttText criterion := rfl
  rw [hmarked]
  unfold sttParts
  rw [htext]

theorem isDirectChild_mark (parent candidate : Criterion) :
    isDirectChild (markCriterion criteria parent) (markCriterion criteria candidate) = isDirectChild parent candidate := by
  have hgroup : ∀ c, (markCriterion criteria c).group = c.group := by
    intro c
    obtain ⟨marked, hmarked⟩ := @markCriterion_eq criteria c
    rw [hmarked]
  have hexplicit : explicitParentId (markCriterion criteria candidate) = explicitParentId candidate := by
    obtain ⟨marked, hmarked⟩ := @markCriterion_eq criteria candidate
    have htext : explicitParentText { candidate with hasChildren := marked } = explicitParentText candidate := rfl
    rw [hmarked]
    unfold explicitParentId
    rw [htext]
  unfold isDirectChild
  rw [sttParts_mark, sttParts_mark, hexplicit, hgroup, hgroup, id_mark, id_mark]

theorem directChildren_mark :
    directChildren (markHierarchicalDetailedEvaluationCriteria criteria) (markCriterion criteria criterion) =
      (directChildren criteria criterion).map (markCriterion criteria) := by
  have hfilter : (isDirectChild (markCriterion criteria criterion)) ∘ markCriterion criteria = isDirectChild criterion := by
    funext candidate
    exact isDirectChild_mark criterion candidate
  unfold directChildren markHierarchicalDetailedEvaluationCriteria
  rw [sttParts_mark, filter_map, hfilter]
  cases (sttParts criterion).isEmpty with
  | true => simp only [if_true, map_nil]
  | false => simp only [Bool.false_eq_true, if_false]

theorem aggregateChildResults_ne_empty (results : List String) : aggregateChildResults results ≠ "" := by
  unfold aggregateChildResults
  split_ifs <;> decide

theorem aggregateChildResults_eq_fail_iff (results : List String) :
    aggregateChildResults results = "fail" ↔ "fail" ∈ results := by
  unfold aggregateChildResults
  split_ifs with hfail hpass
  · simpa using hfail
  · have hnot : "fail" ∉ results := by simpa using hfail
    simp [hnot]
  · have hnot : "fail" ∉ results := by simpa using hfail
    simp [hnot]

def childIds (criteria : List Criterion) (id : String) : List String :=
  match criteria.find? (·.id = id) with
  | some criterion => (directChildren criteria criterion).map (·.id)
  | none => []

def aggregateOf (criteria : List Criterion) (id : String) (values : String → String) : String :=
  aggregateChildResults ((childIds criteria id).map values)

section

variable (hids : (criteria.map (·.id)).Nodup)
include hids

theorem find?_of_mem {criterion : Criterion} (h : criterion ∈ criteria) :
    criteria.find? (·.id = criterion.id) = some criterion := by
  induction criteria with
  | nil => cases h
  | cons head criteria ih =>
    rw [map_cons, nodup_cons] at hids
    rcases mem_cons.mp h with rfl | hmem
    · simp
    have hne : head.id ≠ criterion.id := by
      intro heq
      exact hids.1 (mem_map.mpr ⟨criterion, hmem, heq.symm⟩)
    rw [find?_cons_of_neg (by simpa using hne)]
    exact ih hids.2 hmem

theorem childIds_of_mem {criterion : Criterion} (h : criterion ∈ criteria) :
    childIds criteria criterion.id = (directChildren criteria criterion).map (·.id) := by
  unfold childIds
  rw [find?_of_mem hids h]

theorem mem_childIds_iff (c p : String) : c ∈ childIds criteria p ↔ ChildOf criteria c p := by
  constructor
  · intro h
    unfold childIds at h
    cases hfind : criteria.find? (·.id = p) with
    | none => simp [hfind] at h
    | some parent =>
      rw [hfind] at h
      obtain ⟨child, hchild, hid⟩ := mem_map.mp h
      have hp : parent.id = p := by simpa using find?_some hfind
      exact ⟨parent, mem_of_find?_eq_some hfind, child, hchild, hid, hp⟩
  · rintro ⟨parent, hparent, child, hchild, rfl, rfl⟩
    rw [childIds_of_mem hids hparent]
    exact mem_map_of_mem hchild

theorem readsChildren_aggregateOf : ReadsChildren (ChildOf criteria) (aggregateOf criteria) := by
  intro p v w h
  unfold aggregateOf
  congr 1
  apply map_congr_left
  intro c hc
  exact h c ((mem_childIds_iff hids c p).mp hc)

theorem passesLow_aggregateOf (order : List String) :
    PassesLow (ChildOf criteria) (· = "fail") (aggregateOf criteria) order := by
  intro p _ v
  show aggregateChildResults ((childIds criteria p).map v) = "fail" ↔ ∃ c, ChildOf criteria c p ∧ v c = "fail"
  rw [aggregateChildResults_eq_fail_iff, mem_map]
  constructor
  · rintro ⟨c, hc, hv⟩
    exact ⟨c, (mem_childIds_iff hids c p).mp hc, hv⟩
  · rintro ⟨c, hc, hv⟩
    exact ⟨c, (mem_childIds_iff hids c p).mpr hc, hv⟩

end

variable (rows : Dict String ResultRow) {row : ResultRow} {extension : RowExtension} {α : Type} {order : List Criterion}

theorem resultOf_set (id : String) (h : row.ketQua ≠ "") :
    resultOf (rows.set id row) = fun k => if k = id then row.ketQua else resultOf rows k := by
  funext k
  unfold resultOf
  rw [Dict.get?_set]
  by_cases hk : k = id
  · simp [hk, h]
  · simp [hk]

theorem automaticOf_set (id : String) (hrow : row.extension = some extension) (h : extension.ketQuaTuDong ≠ "") :
    automaticOf (rows.set id row) = fun k => if k = id then extension.ketQuaTuDong else automaticOf rows k := by
  funext k
  unfold automaticOf
  rw [Dict.get?_set]
  by_cases hk : k = id
  · simp [hk, h, hrow]
  · simp [hk]

theorem map_directChildren_mark (hids : (criteria.map (·.id)).Nodup) {criterion : Criterion} (h : criterion ∈ criteria)
    (values : String → String) :
    ((directChildren (markHierarchicalDetailedEvaluationCriteria criteria) (markCriterion criteria criterion)).map
      fun child => values child.id) = (childIds criteria criterion.id).map values := by
  rw [directChildren_mark, childIds_of_mem hids h, map_map, map_map]
  apply map_congr_left
  intro child _
  show values (markCriterion criteria child).id = values child.id
  rw [id_mark]

theorem rolledUpRow_fields (criteria : List Criterion) (reportId : String) (rows : Dict String ResultRow)
    (criterion : Criterion) : (rolledUpRow criteria reportId rows criterion).ketQua =
        aggregateChildResults ((directChildren criteria criterion).map fun child => resultOf rows child.id) ∧
      ∃ extension, (rolledUpRow criteria reportId rows criterion).extension = some extension ∧
        extension.ketQuaTuDong =
          aggregateChildResults ((directChildren criteria criterion).map fun child => automaticOf rows child.id) := by
  unfold rolledUpRow
  refine ⟨?_, _, rfl, ?_⟩
  · dsimp only
  · dsimp only

theorem rolledUpRow_values (hids : (criteria.map (·.id)).Nodup) {criterion : Criterion} (h : criterion ∈ criteria)
    (reportId : String) (rows : Dict String ResultRow) :
    let row := rolledUpRow (markHierarchicalDetailedEvaluationCriteria criteria) reportId rows (markCriterion criteria criterion)
    row.ketQua = aggregateOf criteria criterion.id (resultOf rows) ∧
      ∃ extension, row.extension = some extension ∧
        extension.ketQuaTuDong = aggregateOf criteria criterion.id (automaticOf rows) := by
  intro row
  have hfields := rolledUpRow_fields (markHierarchicalDetailedEvaluationCriteria criteria) reportId rows
    (markCriterion criteria criterion)
  rw [map_directChildren_mark hids h (resultOf rows), map_directChildren_mark hids h (automaticOf rows)] at hfields
  exact hfields

theorem views_rollUpCriterion (hids : (criteria.map (·.id)).Nodup) {criterion : Criterion} (h : criterion ∈ criteria)
    (reportId : String) (rows : Dict String ResultRow) :
    let after := rollUpCriterion (markHierarchicalDetailedEvaluationCriteria criteria) reportId rows
      (markCriterion criteria criterion)
    resultOf after = rollStep (aggregateOf criteria) (resultOf rows) criterion.id ∧
      automaticOf after = rollStep (aggregateOf criteria) (automaticOf rows) criterion.id := by
  intro after
  obtain ⟨hresult, extension, hextension, hautomatic⟩ := rolledUpRow_values hids h reportId rows
  have hne : ∀ values, aggregateOf criteria criterion.id values ≠ "" := fun _ => aggregateChildResults_ne_empty _
  constructor
  · unfold after rollUpCriterion
    rw [resultOf_set _ _ (by rw [hresult]; exact hne _), hresult, id_mark]
    rfl
  · unfold after rollUpCriterion
    rw [automaticOf_set _ _ hextension (by rw [hautomatic]; exact hne _), hautomatic, id_mark]
    rfl

/-! ## The order -/

def computedOrder (criteria : List Criterion) : List Criterion :=
  (criteria.filter fun criterion =>
    !(directChildren criteria criterion).isEmpty && criterion.resultType = "pass_fail").mergeSort
      fun left right => (sttParts right).length ≤ (sttParts left).length

theorem evaluationOrder_mark : evaluationOrder (markHierarchicalDetailedEvaluationCriteria criteria) =
    (computedOrder criteria).map (markCriterion criteria) := by
  have hfilter : (fun criterion : Criterion => criterion.hasChildren && decide (criterion.resultType = "pass_fail")) ∘
      markCriterion criteria = fun criterion =>
        !(directChildren criteria criterion).isEmpty && decide (criterion.resultType = "pass_fail") := by
    funext criterion
    rw [Function.comp_apply, hasChildren_mark, resultType_mark]
  unfold evaluationOrder computedOrder markHierarchicalDetailedEvaluationCriteria
  rw [filter_map, hfilter]
  symm
  apply map_mergeSort
  intro a _ b _
  rw [sttParts_mark, sttParts_mark]

theorem mem_computedOrder : criterion ∈ computedOrder criteria ↔ criterion ∈ criteria ∧ IsRolledUp criteria criterion := by
  unfold computedOrder IsRolledUp
  rw [mem_mergeSort, mem_filter]
  generalize directChildren criteria criterion = children
  simp only [Bool.and_eq_true, Bool.not_eq_true', decide_eq_true_eq, isEmpty_eq_false_iff]
  tauto

theorem totalPreorder_depth :
    TotalPreorder fun left right : Criterion => decide ((sttParts right).length ≤ (sttParts left).length) where
  trans a b c hab hbc := by
    simp only [decide_eq_true_eq] at hab hbc ⊢
    omega
  total a b := by
    simp only [Bool.or_eq_true, decide_eq_true_eq]
    omega

section

variable (hids : (criteria.map (·.id)).Nodup)
include hids

theorem nodup_criteria : criteria.Nodup := List.Nodup.of_map _ hids

theorem nodup_computedOrder : (computedOrder criteria).Nodup :=
  (mergeSort_perm _ _).nodup_iff.mpr ((nodup_criteria hids).filter _)

theorem nodup_computedIds : ((computedOrder criteria).map (·.id)).Nodup := by
  have hperm : (computedOrder criteria).Perm _ := mergeSort_perm _ _
  refine (hperm.map _).nodup_iff.mpr ?_
  exact hids.sublist (filter_sublist.map _)

end

theorem pair_sublist_computedOrder {first second : Criterion} (hfirst : first ∈ criteria) (hsecond : second ∈ criteria)
    (hrolled : IsRolledUp criteria first) (hrolled' : IsRolledUp criteria second) (hne : first ≠ second)
    (h : (sttParts second).length < (sttParts first).length ∨
      ((sttParts second).length = (sttParts first).length ∧ [first, second].Sublist criteria)) :
    [first, second].Sublist (computedOrder criteria) := by
  rcases h with hlonger | ⟨hequal, hbefore⟩
  · have hmem : first ∈ computedOrder criteria := (mem_computedOrder first).mpr ⟨hfirst, hrolled⟩
    have hmem' : second ∈ computedOrder criteria := (mem_computedOrder second).mpr ⟨hsecond, hrolled'⟩
    have hsorted : (computedOrder criteria).Pairwise fun left right =>
        decide ((sttParts right).length ≤ (sttParts left).length) = true :=
      pairwise_mergeSort totalPreorder_depth.trans totalPreorder_depth.total _
    generalize computedOrder criteria = order at hmem hmem' hsorted ⊢
    obtain ⟨before, after, rfl⟩ := append_of_mem hmem
    rw [pairwise_append] at hsorted
    rcases mem_append.mp hmem' with hb | ha
    · have hle := hsorted.2.2 second hb first mem_cons_self
      rw [decide_eq_true_eq] at hle
      omega
    · rcases mem_cons.mp ha with heq | hafter
      · exact absurd heq.symm hne
      · refine List.Sublist.trans ?_ (sublist_append_right before (first :: after))
        exact List.Sublist.cons_cons first (singleton_sublist.mpr hafter)
  · unfold computedOrder
    apply pair_sublist_mergeSort totalPreorder_depth.trans totalPreorder_depth.total
    · rw [decide_eq_true_eq]
      omega
    · have hfilter := hbefore.filter fun criterion : Criterion =>
        !(directChildren criteria criterion).isEmpty && criterion.resultType = "pass_fail"
      have hkept : ∀ criterion, IsRolledUp criteria criterion →
          (!(directChildren criteria criterion).isEmpty && decide (criterion.resultType = "pass_fail")) = true := by
        rintro criterion ⟨htype, hchildren⟩
        simp [htype, hchildren]
      have hpair : [first, second].filter (fun criterion : Criterion =>
          !(directChildren criteria criterion).isEmpty && criterion.resultType = "pass_fail") = [first, second] := by
        apply filter_eq_self.mpr
        intro criterion hmem
        simp only [mem_cons, not_mem_nil, or_false] at hmem
        rcases hmem with rfl | rfl
        · exact hkept criterion hrolled
        · exact hkept criterion hrolled'
      rwa [hpair] at hfilter

theorem pair_sublist_or {l : List α} {a b : α} (ha : a ∈ l) (hb : b ∈ l) (hne : a ≠ b) :
    [a, b].Sublist l ∨ [b, a].Sublist l := by
  induction l with
  | nil => cases ha
  | cons c l ih =>
    rcases mem_cons.mp ha with rfl | ha'
    · rcases mem_cons.mp hb with rfl | hb'
      · exact absurd rfl hne
      · exact .inl (List.Sublist.cons_cons a (singleton_sublist.mpr hb'))
    · rcases mem_cons.mp hb with rfl | hb'
      · exact .inr (List.Sublist.cons_cons b (singleton_sublist.mpr ha'))
      · rcases ih ha' hb' with h | h
        · exact .inl (h.cons c)
        · exact .inr (h.cons c)

theorem not_pair_sublist_of_nodup {l : List α} (hnodup : l.Nodup) {a b : α} (h : [a, b].Sublist l) : ¬[b, a].Sublist l := by
  induction l with
  | nil => cases h
  | cons c l ih =>
    rw [nodup_cons] at hnodup
    intro h'
    rcases sublist_cons_iff.mp h with hskip | ⟨rest, heq, hrest⟩
    · rcases sublist_cons_iff.mp h' with hskip' | ⟨rest, heq, -⟩
      · exact ih hnodup.2 hskip hskip'
      · rw [List.cons.injEq] at heq
        rw [← heq.1] at hnodup
        exact hnodup.1 (hskip.subset (by simp))
    · rw [List.cons.injEq] at heq
      obtain ⟨rfl, -⟩ := heq
      rcases sublist_cons_iff.mp h' with hskip' | ⟨rest', heq', hrest'⟩
      · exact hnodup.1 (hskip'.subset (by simp))
      · rw [List.cons.injEq] at heq'
        rw [← heq'.2] at hrest'
        exact hnodup.1 (hrest'.subset (by simp))

/-! ## The whole report -/

def rollUpRows (criteria : List Criterion) (reportId : String) (order : List Criterion) (rows : Dict String ResultRow) :
    Dict String ResultRow :=
  order.foldl (fun rows criterion => rollUpCriterion (markHierarchicalDetailedEvaluationCriteria criteria) reportId rows
    (markCriterion criteria criterion)) rows

theorem views_rollUpRows (hids : (criteria.map (·.id)).Nodup) (reportId : String)
    (horder : ∀ criterion ∈ order, criterion ∈ criteria) (rows : Dict String ResultRow) :
    resultOf (rollUpRows criteria reportId order rows) = rollUp (aggregateOf criteria) (order.map (·.id)) (resultOf rows) ∧
      automaticOf (rollUpRows criteria reportId order rows) =
        rollUp (aggregateOf criteria) (order.map (·.id)) (automaticOf rows) := by
  induction order generalizing rows with
  | nil => exact ⟨rfl, rfl⟩
  | cons criterion order ih =>
    obtain ⟨hresult, hautomatic⟩ := views_rollUpCriterion hids (horder criterion mem_cons_self) reportId rows
    have hrest := ih (fun c hc => horder c (mem_cons_of_mem criterion hc))
      (rollUpCriterion (markHierarchicalDetailedEvaluationCriteria criteria) reportId rows (markCriterion criteria criterion))
    rw [hresult, hautomatic] at hrest
    exact hrest

theorem get?_rollUpRows_of_not_mem (reportId : String) {id : String}
    (h : ∀ criterion ∈ order, criterion.id ≠ id) (rows : Dict String ResultRow) :
    (rollUpRows criteria reportId order rows).get? id = rows.get? id := by
  unfold rollUpRows
  refine foldl_inv _ (fun after : Dict String ResultRow => after.get? id = rows.get? id) order (fun after criterion hmem hafter => ?_) rfl
  unfold rollUpCriterion
  rw [id_mark, Dict.get?_set_of_ne _ _ (h criterion hmem).symm]
  exact hafter

theorem get?_rollUpRows_of_mem (hids : (criteria.map (·.id)).Nodup) (reportId : String)
    (horder : ∀ criterion ∈ order, criterion ∈ criteria) {criterion : Criterion} (h : criterion ∈ order)
    (rows : Dict String ResultRow) : ∃ row extension, (rollUpRows criteria reportId order rows).get? criterion.id = some row ∧
      row.extension = some extension ∧ row.ketQua ≠ "" ∧ extension.ketQuaTuDong ≠ "" := by
  induction order generalizing rows with
  | nil => cases h
  | cons first order ih =>
    by_cases hlater : criterion ∈ order
    · exact ih (fun c hc => horder c (mem_cons_of_mem first hc)) hlater _
    obtain rfl : criterion = first := (mem_cons.mp h).resolve_right hlater
    have hmem := horder criterion mem_cons_self
    have hother : ∀ c ∈ order, c.id ≠ criterion.id := by
      intro c hc heq
      have hsame := find?_of_mem hids (horder c (mem_cons_of_mem criterion hc))
      rw [heq, find?_of_mem hids hmem, Option.some.injEq] at hsame
      exact hlater (hsame ▸ hc)
    obtain ⟨hresult, extension, hextension, hautomatic⟩ := rolledUpRow_values hids hmem reportId rows
    refine ⟨_, extension, ?_, hextension, ?_, ?_⟩
    · show (rollUpRows criteria reportId order (rollUpCriterion _ reportId rows _)).get? criterion.id = _
      rw [get?_rollUpRows_of_not_mem reportId hother]
      unfold rollUpCriterion
      rw [id_mark]
      exact Dict.get?_set_self _ _ _
    · rw [hresult]
      exact aggregateChildResults_ne_empty _
    · rw [hautomatic]
      exact aggregateChildResults_ne_empty _

def KeyedRows : Prop :=
  ∀ id row, rows.get? id = some row → row.tieuChiDanhGiaId = id ∧ row.extension ≠ none

variable (report : EvaluationReport)

theorem keyedRows_rowsOf : KeyedRows (rowsOf report) := by
  unfold rowsOf Dict.ofList
  refine foldl_inv _ KeyedRows _ (fun rows entry hentry hrows id row hget => ?_) fun id row hget => ?_
  · rw [Dict.get?_set] at hget
    split at hget
    · rename_i hid
      obtain ⟨given, -, rfl⟩ := mem_map.mp hentry
      cases hget
      exact ⟨hid.symm, by simp [withExtension]⟩
    · exact hrows id row hget
  · cases hget

theorem tieuChiDanhGiaId_rolledUpRow (criteria : List Criterion) (reportId : String) {rows : Dict String ResultRow}
    (hrows : KeyedRows rows) (criterion : Criterion) :
    (rolledUpRow criteria reportId rows criterion).tieuChiDanhGiaId = criterion.id := by
  have hkey : (rolledUpRow criteria reportId rows criterion).tieuChiDanhGiaId =
      ((rows.get? criterion.id).getD (newResultRow reportId criterion.id)).tieuChiDanhGiaId := by
    unfold rolledUpRow
    dsimp only
  rw [hkey]
  cases hget : rows.get? criterion.id with
  | none => rfl
  | some row => exact (hrows criterion.id row hget).1

theorem keyedRows_rollUpRows (reportId : String) (order : List Criterion) {rows : Dict String ResultRow}
    (hrows : KeyedRows rows) : KeyedRows (rollUpRows criteria reportId order rows) := by
  unfold rollUpRows
  refine foldl_inv _ KeyedRows order (fun rows criterion _ hrows id row hget => ?_) hrows
  unfold rollUpCriterion at hget
  rw [Dict.get?_set] at hget
  split at hget
  · rename_i hid
    cases hget
    obtain ⟨-, extension, hextension, -⟩ := rolledUpRow_fields (markHierarchicalDetailedEvaluationCriteria criteria) reportId
      rows (markCriterion criteria criterion)
    exact ⟨(tieuChiDanhGiaId_rolledUpRow _ reportId hrows _).trans hid.symm, by simp [hextension]⟩
  · exact hrows id row hget

theorem rowsOf_values {rows : Dict String ResultRow} (hrows : KeyedRows rows) (id : String) (rest : Record) :
    rowsOf ⟨id, rows.values, rest⟩ = rows := by
  have hentries : (rows.values.map fun row => (row.tieuChiDanhGiaId, withExtension row)) = rows.entries := by
    unfold Dict.values
    rw [map_map]
    conv_rhs => rw [← map_id rows.entries]
    apply map_congr_left
    intro entry hentry
    obtain ⟨hkey, hextension⟩ := hrows entry.1 entry.2 ((Dict.mem_entries_iff rows entry.1 entry.2).mp hentry)
    obtain ⟨extension, hsome⟩ := Option.ne_none_iff_exists'.mp hextension
    have hsame : withExtension entry.2 = entry.2 := by
      unfold withExtension
      rw [hsome, Option.getD_some, ← hsome]
    exact Prod.ext hkey hsame
  unfold rowsOf
  dsimp only
  rw [hentries]
  exact Dict.ofList_entries rows

theorem applyHierarchical_eq (criteria : List Criterion) :
    applyHierarchicalDetailedEvaluationResults report criteria =
      ⟨report.id, (rollUpRows criteria report.id (computedOrder criteria) (rowsOf report)).values, report.rest⟩ := by
  unfold applyHierarchicalDetailedEvaluationResults rollUpRows
  dsimp only
  rw [evaluationOrder_mark, foldl_map]

theorem rowsOf_applyHierarchical (criteria : List Criterion) :
    rowsOf (applyHierarchicalDetailedEvaluationResults report criteria) =
      rollUpRows criteria report.id (computedOrder criteria) (rowsOf report) := by
  rw [applyHierarchical_eq]
  exact rowsOf_values (keyedRows_rollUpRows report.id _ (keyedRows_rowsOf report)) report.id report.rest

/-! ## Children first -/

theorem mem_criteria_of_computed {criterion : Criterion} (h : criterion ∈ computedOrder criteria) : criterion ∈ criteria :=
  ((mem_computedOrder criterion).mp h).1

theorem ChildrenFirst.pairwise (h : ChildrenFirst criteria) (hforest : IsFoundForest criteria) :
    ((computedOrder criteria).map (·.id)).Pairwise fun n later => ¬ChildOf criteria later n := by
  rw [pairwise_map, pairwise_iff_forall_sublist]
  intro first second hpair hchild
  have hfirst : first ∈ computedOrder criteria := hpair.subset (by simp)
  have hsecond : second ∈ computedOrder criteria := hpair.subset (by simp)
  obtain ⟨hmem, hrolled⟩ := (mem_computedOrder first).mp hfirst
  obtain ⟨hmem', hrolled'⟩ := (mem_computedOrder second).mp hsecond
  have hdirect : second ∈ directChildren criteria first := by
    obtain ⟨parent, hparent, child, hdirect, hc, hp⟩ := hchild
    have hsame : parent = first := by
      have hfind := find?_of_mem hforest.ids hparent
      rw [hp, find?_of_mem hforest.ids hmem, Option.some.injEq] at hfind
      exact hfind.symm
    have hchildMem : child ∈ criteria := by
      unfold directChildren at hdirect
      split at hdirect
      · cases hdirect
      · exact (mem_filter.mp hdirect).1
    have hsame' : child = second := by
      have hfind := find?_of_mem hforest.ids hchildMem
      rw [hc, find?_of_mem hforest.ids hmem', Option.some.injEq] at hfind
      exact hfind.symm
    rw [← hsame, ← hsame']
    exact hdirect
  have hne : second ≠ first := by
    rintro rfl
    exact hforest.acyclic second.id (.single hchild)
  have hback := pair_sublist_computedOrder hmem' hmem hrolled' hrolled hne (h first hmem second hdirect hrolled hrolled')
  exact not_pair_sublist_of_nodup (nodup_computedOrder hforest.ids) hpair hback

theorem rollUpCriterion_of_settled (hids : (criteria.map (·.id)).Nodup) {criterion : Criterion} (h : criterion ∈ criteria)
    (reportId : String) {rows : Dict String ResultRow}
    (hrow : rows.get? criterion.id = some row) (hextension : row.extension = some extension)
    (hresult : row.ketQua = aggregateOf criteria criterion.id (resultOf rows))
    (hautomatic : extension.ketQuaTuDong = aggregateOf criteria criterion.id (automaticOf rows)) :
    rollUpCriterion (markHierarchicalDetailedEvaluationCriteria criteria) reportId rows (markCriterion criteria criterion) =
      rows := by
  have hsame : rolledUpRow (markHierarchicalDetailedEvaluationCriteria criteria) reportId rows (markCriterion criteria criterion) =
      row := by
    unfold rolledUpRow
    dsimp only
    rw [map_directChildren_mark hids h (resultOf rows), map_directChildren_mark hids h (automaticOf rows), id_mark, hrow,
      Option.getD_some, hextension, Option.getD_some]
    unfold aggregateOf at hresult hautomatic
    rw [← hresult, ← hautomatic, ← hextension]
  unfold rollUpCriterion
  rw [hsame, id_mark]
  exact Dict.set_of_get? rows hrow

/-- If no criterion is computed before a child of it, rolling up is right. -/
theorem rollsUpFound_of_childrenFirst (hforest : IsFoundForest criteria) (h : ChildrenFirst criteria) : RollsUpFound criteria := by
  intro report after
  have horder : ∀ criterion ∈ computedOrder criteria, criterion ∈ criteria := fun _ => mem_criteria_of_computed
  have hrows : rowsOf after = rollUpRows criteria report.id (computedOrder criteria) (rowsOf report) :=
    rowsOf_applyHierarchical report criteria
  obtain ⟨hresults, hautomatics⟩ := views_rollUpRows hforest.ids report.id horder (rowsOf report)
  rw [← hrows] at hresults hautomatics
  have hself : ∀ n ∈ (computedOrder criteria).map (·.id), ¬ChildOf criteria n n :=
    fun n _ hchild => hforest.acyclic n (.single hchild)
  have hsettled : ∀ values, ∀ n ∈ (computedOrder criteria).map (·.id),
      rollUp (aggregateOf criteria) ((computedOrder criteria).map (·.id)) values n =
        aggregateOf criteria n (rollUp (aggregateOf criteria) ((computedOrder criteria).map (·.id)) values) :=
    fun values n hn => rollUp_settled (readsChildren_aggregateOf hforest.ids) hself (nodup_computedIds hforest.ids)
      (h.pairwise hforest) values hn
  -- what a computed criterion shows
  have hshown : ∀ criterion ∈ computedOrder criteria, ∃ row extension, (rowsOf after).get? criterion.id = some row ∧
      row.extension = some extension ∧ row.ketQua = aggregateOf criteria criterion.id (resultOf (rowsOf after)) ∧
      extension.ketQuaTuDong = aggregateOf criteria criterion.id (automaticOf (rowsOf after)) := by
    intro criterion hcriterion
    obtain ⟨row, extension, hrow, hextension, hne, hne'⟩ :=
      get?_rollUpRows_of_mem hforest.ids report.id horder hcriterion (rowsOf report)
    rw [← hrows] at hrow
    have hid : criterion.id ∈ (computedOrder criteria).map (·.id) := mem_map_of_mem hcriterion
    have hresult : resultOf (rowsOf after) criterion.id = row.ketQua := by simp [resultOf, hrow, hne]
    have hautomatic : automaticOf (rowsOf after) criterion.id = extension.ketQuaTuDong := by
      simp [automaticOf, hrow, hextension, hne']
    refine ⟨row, extension, hrow, hextension, ?_, ?_⟩
    · rw [← hresult, hresults]
      exact hsettled _ criterion.id hid
    · rw [← hautomatic, hautomatics]
      exact hsettled _ criterion.id hid
  refine ⟨fun criterion hmem hrolled => ?_, fun id hother => ?_, ?_⟩
  · obtain ⟨row, extension, hrow, hextension, hresult, hautomatic⟩ :=
      hshown criterion ((mem_computedOrder criterion).mpr ⟨hmem, hrolled⟩)
    refine ⟨row, extension, hrow, hextension, ?_, ?_⟩
    · rw [hresult]
      unfold aggregateOf
      rw [childIds_of_mem hforest.ids hmem, map_map]
      rfl
    · rw [hautomatic]
      unfold aggregateOf
      rw [childIds_of_mem hforest.ids hmem, map_map]
      rfl
  · rw [hrows]
    apply get?_rollUpRows_of_not_mem
    intro criterion hcriterion
    obtain ⟨hmem, hrolled⟩ := (mem_computedOrder criterion).mp hcriterion
    exact hother criterion hmem hrolled
  · have hagain : rollUpRows criteria report.id (computedOrder criteria) (rowsOf after) = rowsOf after := by
      unfold rollUpRows
      apply foldl_eq_self
      intro criterion hcriterion
      obtain ⟨row, extension, hrow, hextension, hresult, hautomatic⟩ := hshown criterion hcriterion
      exact rollUpCriterion_of_settled hforest.ids (horder criterion hcriterion) report.id hrow hextension hresult hautomatic
    have hafter : after = ⟨report.id, (rowsOf after).values, report.rest⟩ := by
      rw [hrows]
      exact applyHierarchical_eq report criteria
    have hid : after.id = report.id := by rw [hafter]
    have hrest : after.rest = report.rest := by rw [hafter]
    rw [applyHierarchical_eq, hid, hrest, hagain]
    exact hafter.symm

def failedReport (id : String) : EvaluationReport where
  id := ""
  chiTietList := [⟨"", id, "fail", "", none, .empty⟩]
  rest := .empty

theorem resultOf_failedReport (id k : String) : resultOf (rowsOf (failedReport id)) k = "fail" ↔ k = id := by
  have hrows : rowsOf (failedReport id) = Dict.empty.set id (withExtension ⟨"", id, "fail", "", none, .empty⟩) := rfl
  rw [hrows]
  unfold resultOf
  rw [Dict.get?_set]
  by_cases hk : k = id
  · simp [hk, withExtension]
  · simp [hk]

theorem childrenFirst_of_rollsUpFound (hforest : IsFoundForest criteria) (h : RollsUpFound criteria) : ChildrenFirst criteria := by
  intro parent hparent child hdirect hrolled hrolled'
  by_contra hlate
  rw [not_or] at hlate
  have hchild : ChildOf criteria child.id parent.id := ⟨parent, hparent, child, hdirect, rfl, rfl⟩
  have hmem : child ∈ criteria := by
    unfold directChildren at hdirect
    split at hdirect
    · cases hdirect
    · exact (mem_filter.mp hdirect).1
  have hne : parent ≠ child := by
    rintro rfl
    exact hforest.acyclic parent.id (.single hchild)
  have hbefore : [parent, child].Sublist (computedOrder criteria) := by
    apply pair_sublist_computedOrder hparent hmem hrolled hrolled' hne
    by_cases hlonger : (sttParts child).length < (sttParts parent).length
    · exact .inl hlonger
    have hequal : (sttParts parent).length = (sttParts child).length := by
      have hshorter := hlate.1
      omega
    refine .inr ⟨hequal.symm, ?_⟩
    rcases pair_sublist_or hparent hmem hne with hfirst | hsecond
    · exact hfirst
    · exact absurd ⟨hequal, hsecond⟩ hlate.2
  have horder : ∀ criterion ∈ computedOrder criteria, criterion ∈ criteria := fun _ => mem_criteria_of_computed
  have hids : [parent.id, child.id].Sublist ((computedOrder criteria).map (·.id)) :=
    List.Sublist.map (fun criterion : Criterion => criterion.id) hbefore
  obtain ⟨hlow, hother⟩ := parent_unsettled (passesLow_aggregateOf hforest.ids ((computedOrder criteria).map (·.id)))
    (nodup_computedIds hforest.ids) hforest.acyclic hforest.parent_unique hids hchild (resultOf_failedReport child.id)
  have hresults := (views_rollUpRows hforest.ids (failedReport child.id).id horder (rowsOf (failedReport child.id))).1
  rw [← hresults, ← rowsOf_applyHierarchical (failedReport child.id) criteria] at hlow hother
  obtain ⟨row, extension, hrow, -, hresult, -⟩ := (h (failedReport child.id)).1 parent hparent hrolled
  have hfail : row.ketQua = "fail" := by
    unfold resultOf at hlow
    rw [hrow] at hlow
    dsimp only at hlow
    split at hlow
    · exact hlow
    · exact absurd hlow (by decide)
  rw [hfail, eq_comm, aggregateChildResults_eq_fail_iff, mem_map] at hresult
  obtain ⟨other, hotherMem, hotherFail⟩ := hresult
  exact hother other.id ⟨parent, hparent, other, hotherMem, rfl, rfl⟩ hotherFail

/-! ## The theorem -/

theorem directChildren_eq_childrenOf {parent : Criterion} (h : sttParts parent ≠ []) :
    directChildren criteria parent = childrenOf criteria parent := by
  have hempty : (sttParts parent).isEmpty = false := by rwa [isEmpty_eq_false_iff]
  have hsame : isDirectChild parent = standsBelow parent := by
    funext candidate
    simp only [isDirectChild, standsBelow, hempty, Bool.not_false, Bool.true_and]
  unfold directChildren childrenOf
  rw [if_neg (by rw [hempty]; exact Bool.false_ne_true), hsame]

theorem mem_childrenOf_of_direct {parent child : Criterion} (h : child ∈ directChildren criteria parent) :
    child ∈ childrenOf criteria parent := by
  have hparts : sttParts parent ≠ [] := by
    intro hempty
    unfold directChildren at h
    rw [hempty, if_pos isEmpty_nil] at h
    cases h
  rwa [directChildren_eq_childrenOf hparts] at h

theorem ChildOf.below {c p : String} (h : ChildOf criteria c p) : Below criteria c p := by
  obtain ⟨parent, hparent, child, hchild, hc, hp⟩ := h
  exact ⟨parent, hparent, child, mem_childrenOf_of_direct hchild, hc, hp⟩

theorem IsForest.found (h : IsForest criteria) : IsFoundForest criteria where
  ids := h.ids
  parent_unique c p q hp hq := h.parent_unique c p q hp.below hq.below
  acyclic c hc := by
    have hle : ChildOf criteria ≤ Below criteria := fun _ _ => ChildOf.below
    exact h.acyclic c (Relation.TransGen.mono hle c c hc)

theorem IsRolledUp.hasAggregate {criterion : Criterion} (h : IsRolledUp criteria criterion) :
    HasAggregate criteria criterion := by
  refine ⟨h.1, fun hempty => h.2 ?_⟩
  rw [eq_nil_iff_forall_not_mem] at hempty ⊢
  exact fun child hchild => hempty child (mem_childrenOf_of_direct hchild)

theorem ParentsNumbered.isRolledUp_iff (h : ParentsNumbered criteria) {criterion : Criterion} (hmem : criterion ∈ criteria) :
    HasAggregate criteria criterion ↔ IsRolledUp criteria criterion := by
  refine ⟨fun hagg => ⟨hagg.1, ?_⟩, IsRolledUp.hasAggregate⟩
  rw [directChildren_eq_childrenOf (h criterion hmem hagg)]
  exact hagg.2

theorem ParentsNumbered.rollsUp_iff_found (h : ParentsNumbered criteria) : RollsUp criteria ↔ RollsUpFound criteria := by
  have hsame : ∀ criterion ∈ criteria, IsRolledUp criteria criterion →
      directChildren criteria criterion = childrenOf criteria criterion :=
    fun criterion hmem hrolled => directChildren_eq_childrenOf (h criterion hmem hrolled.hasAggregate)
  constructor <;> intro hright report <;> obtain ⟨hshown, hkept, hagain⟩ := hright report
  · refine ⟨fun criterion hmem hrolled => ?_, fun id hother => hkept id fun criterion hmem hagg => ?_, hagain⟩
    · rw [hsame criterion hmem hrolled]
      exact hshown criterion hmem hrolled.hasAggregate
    · exact hother criterion hmem ((h.isRolledUp_iff hmem).mp hagg)
  · refine ⟨fun criterion hmem hagg => ?_, fun id hother => hkept id fun criterion hmem hrolled => ?_, hagain⟩
    · have hrolled := (h.isRolledUp_iff hmem).mp hagg
      rw [← hsame criterion hmem hrolled]
      exact hshown criterion hmem hrolled
    · exact hother criterion hmem hrolled.hasAggregate

theorem parentsNumbered_of_rollsUp (hids : (criteria.map (·.id)).Nodup) (h : RollsUp criteria) : ParentsNumbered criteria := by
  intro criterion hmem hagg hparts
  obtain ⟨row, _, hrow, _⟩ := (h ⟨"", [], .empty⟩).1 criterion hmem hagg
  rw [rowsOf_applyHierarchical, get?_rollUpRows_of_not_mem] at hrow
  · cases hrow
  · intro computed hcomputed hid
    obtain ⟨hmem', hrolled⟩ := (mem_computedOrder computed).mp hcomputed
    have hsame : computed = criterion := inj_on_of_nodup_map hids hmem' hmem hid
    apply hrolled.2
    unfold directChildren
    rw [hsame, hparts, if_pos isEmpty_nil]

/-- Rolling up a forest of criteria is right for every report if and only if the pass/fail criteria that have children have
dotted numbers and no criterion is computed before a child of it, which is when the number of such a child is longer, or as long
and the child stands before the criterion. -/
theorem rollsUp_iff (hforest : IsForest criteria) : RollsUp criteria ↔ ParentsNumbered criteria ∧ ChildrenFirst criteria := by
  constructor
  · intro h
    have hnumbered := parentsNumbered_of_rollsUp hforest.ids h
    exact ⟨hnumbered, childrenFirst_of_rollsUpFound hforest.found (hnumbered.rollsUp_iff_found.mp h)⟩
  · rintro ⟨hnumbered, hfirst⟩
    exact hnumbered.rollsUp_iff_found.mpr (rollsUpFound_of_childrenFirst hforest.found hfirst)

def childPairs (criteria : List Criterion) : List (String × String) :=
  criteria.flatMap fun parent => (childrenOf criteria parent).map fun child => (child.id, parent.id)

theorem mem_childPairs_iff (c p : String) : (c, p) ∈ childPairs criteria ↔ Below criteria c p := by
  unfold childPairs Below
  rw [mem_flatMap]
  constructor
  · rintro ⟨parent, hparent, hmem⟩
    obtain ⟨child, hchild, heq⟩ := mem_map.mp hmem
    rw [Prod.mk.injEq] at heq
    exact ⟨parent, hparent, child, hchild, heq.1, heq.2⟩
  · rintro ⟨parent, hparent, child, hchild, rfl, rfl⟩
    exact ⟨parent, hparent, mem_map_of_mem hchild⟩

theorem isForest_of_rank (rank : String → ℕ) (hids : (criteria.map (·.id)).Nodup)
    (hunique : ((childPairs criteria).map Prod.fst).Nodup) (hrank : ∀ pair ∈ childPairs criteria, rank pair.2 < rank pair.1) :
    IsForest criteria where
  ids := hids
  parent_unique c p q hp hq := by
    have hinj := inj_on_of_nodup_map hunique ((mem_childPairs_iff c p).mpr hp) ((mem_childPairs_iff c q).mpr hq) rfl
    exact congrArg Prod.snd hinj
  acyclic c hc := by
    have hfall : ∀ d, Relation.TransGen (Below criteria) c d → rank d < rank c := by
      intro d hd
      induction hd with
      | single h => exact hrank _ ((mem_childPairs_iff _ _).mpr h)
      | tail _ h ih => exact Nat.lt_trans (hrank _ ((mem_childPairs_iff _ _).mpr h)) ih
    exact absurd (hfall c hc) (Nat.lt_irrefl _)

def sampleCriterion (id stt : String) (parentId : Option String) : Criterion :=
  ⟨id, "technical", stt, "", parentId, none, "pass_fail", false⟩

def wellNumbered : List Criterion :=
  [sampleCriterion "p" "1" none, sampleCriterion "c" "1.1" (some "p"), sampleCriterion "l" "1.1.1" none]

def misnumbered : List Criterion :=
  [sampleCriterion "p" "1.1" none, sampleCriterion "c" "2" (some "p"), sampleCriterion "l" "2.1" none]

theorem isForest_sample (criteria : List Criterion) (hids : criteria.map (·.id) = ["p", "c", "l"])
    (hpairs : childPairs criteria = [("c", "p"), ("l", "c")]) : IsForest criteria := by
  refine isForest_of_rank (fun id => if id = "p" then 0 else if id = "c" then 1 else 2) ?_ ?_ ?_
  · rw [hids]
    decide
  · rw [hpairs]
    decide
  · rw [hpairs]
    decide

theorem childPairs_wellNumbered : childPairs wellNumbered = [("c", "p"), ("l", "c")] := by decide +kernel

theorem childPairs_misnumbered : childPairs misnumbered = [("c", "p"), ("l", "c")] := by decide +kernel

theorem rollsUp_wellNumbered : RollsUp wellNumbered := by
  apply (rollsUp_iff (isForest_sample wellNumbered rfl childPairs_wellNumbered)).mpr
  have hnumbered : ∀ criterion ∈ wellNumbered, sttParts criterion ≠ [] := by decide +kernel
  refine ⟨fun criterion hmem _ => hnumbered criterion hmem, fun parent hparent child hchild _ _ => ?_⟩
  have hlonger : ∀ parent ∈ wellNumbered, ∀ child ∈ directChildren wellNumbered parent,
      (sttParts parent).length < (sttParts child).length := by decide +kernel
  exact .inl (hlonger parent hparent child hchild)

/-- Not every forest of criteria is rolled up right: a parent with a longer number than its child is computed first. -/
theorem misnumbered_not_rolledUp : ¬∀ criteria, IsForest criteria → RollsUp criteria := by
  intro h
  have hforest : IsForest misnumbered := isForest_sample misnumbered rfl childPairs_misnumbered
  have hnumbered : ∀ criterion ∈ misnumbered, sttParts criterion ≠ [] := by decide +kernel
  have hfound := ParentsNumbered.rollsUp_iff_found (fun criterion hmem _ => hnumbered criterion hmem)
  have hfirst := childrenFirst_of_rollsUpFound hforest.found (hfound.mp (h misnumbered hforest)) (sampleCriterion "p" "1.1" none) (by simp [misnumbered])
    (sampleCriterion "c" "2" (some "p")) (by decide +kernel) ⟨rfl, by decide +kernel⟩ ⟨rfl, by decide +kernel⟩
  have hparent : (sttParts (sampleCriterion "p" "1.1" none)).length = 2 := by decide +kernel
  have hchild : (sttParts (sampleCriterion "c" "2" (some "p"))).length = 1 := by decide +kernel
  rw [hparent, hchild] at hfirst
  omega

end Bidding.Evaluation
