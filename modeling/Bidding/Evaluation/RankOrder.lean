import Bidding.Evaluation.Rankings

/-!
# What a ranking has to be

The ranks are sound when in every lot the bids that the method admits are ranked from 1 on, a better bid before a
worse one, whatever the order of the bids, and by the values of their prices.
-/

namespace Bidding.Evaluation

open Foundations List Dict

section Ranking

variable (texts : TextFunctions) {F : Type} [LinearOrder F] [Zero F] (numbers : NumberFunctions F)

/-- Whether the method of a package admits a bid. -/
def admitted (gt : TenderPackage) (b : Bid) : Bool :=
  if isTuVan gt then
    match normalizeEvaluationMethod texts gt with
    | some .lowestPrice => technicalNotFailed texts b && isPriceRankable b
    | some .fixedPrice => getPriceG b > 0 && getPriceG b ≤ moneyBigInt gt.giaGoiThau
    | some .combinedTechnicalPrice => isQualified texts numbers gt b && isPriceRankable b
    | some .technicalBased => true
    | _ => false
  else
    match normalizeEvaluationMethod texts gt with
    | some .lowestPrice | some .evaluatedPrice | some .combinedTechnicalPrice => isRankable texts numbers gt b
    | some .technicalBased => isQualified texts numbers gt b
    | _ => false

def eligible (gt : TenderPackage) (b : Bid) : Bool :=
  !isLowPriceBidRejected texts gt b && admitted texts numbers gt b

def methodScore (gt : TenderPackage) (eligibleBids : List Bid) (b : Bid) : F :=
  ((if isTuVan gt then consultingScore numbers gt eligibleBids b else combinedScore numbers gt eligibleBids b)).getD 0

/-- Whether a bid is as good as another among the eligible bids of their lot: by the lower price, or by the higher
score. -/
def asGood (gt : TenderPackage) (eligibleBids : List Bid) (x y : Bid) : Bool :=
  match normalizeEvaluationMethod texts gt with
  | some .lowestPrice => getRankingPrice x ≤ getRankingPrice y
  | some .evaluatedPrice => evaluationPrice x ≤ evaluationPrice y
  | some .combinedTechnicalPrice => methodScore numbers gt eligibleBids y ≤ methodScore numbers gt eligibleBids x
  | _ => getTechScore numbers y ≤ getTechScore numbers x

variable {texts numbers} {eligibleBids : List Bid} {α : Type} {group : List Bid} {left right : List Bid}

variable (gt : TenderPackage)

theorem totalPreorder_asGood (eligibleBids : List Bid) : TotalPreorder (asGood texts numbers gt eligibleBids) where
  trans x y z := by
    unfold asGood
    split <;> simp only [decide_eq_true_iff]
    · exact fun hxy hyz => hxy.trans hyz
    · exact fun hxy hyz => hxy.trans hyz
    · exact fun hxy hyz => hyz.trans hxy
    · exact fun hxy hyz => hyz.trans hxy
  total x y := by
    unfold asGood
    split <;> simp only [Bool.or_eq_true, decide_eq_true_iff]
    · exact le_total _ _
    · exact le_total _ _
    · exact le_total _ _
    · exact le_total _ _

/-! ## The eligible bids of a lot -/

omit [LinearOrder F] [Zero F] in
theorem get?_writeScores (score : Bid → Option F) (scores : Dict String (Option F))
    (hids : (eligibleBids.map Bid.id).Nodup) {b : Bid} (hb : b ∈ eligibleBids) :
    (writeScores score scores eligibleBids).get? b.id = some (score b) := by
  unfold writeScores
  have hfold : eligibleBids.foldl (fun scores b => scores.set b.id (score b)) scores =
      (eligibleBids.map fun b => (b.id, score b)).foldl (fun scores entry => scores.set entry.1 entry.2) scores := by
    rw [foldl_map]
  have hkeys : ((eligibleBids.map fun b => (b.id, score b)).map Prod.fst).Nodup := by
    rw [map_map]
    exact hids
  rw [hfold, Dict.get?_foldl_set, Dict.lookup_reverse_of_nodup hkeys]
  have hentry : Dict.lookup b.id (eligibleBids.map fun b => (b.id, score b)) = some (score b) :=
    (Dict.mem_entries_iff ⟨_, hkeys⟩ b.id (score b)).mp (mem_map.mpr ⟨b, hb, rfl⟩)
  rw [hentry]
  rfl

theorem mergeSort_congr {le le' : α → α → Bool} {l : List α} (h : ∀ a ∈ l, ∀ b ∈ l, le a b = le' a b) :
    l.mergeSort le = l.mergeSort le' := by
  have hmap := @map_mergeSort α α le le' id l h
  rw [map_id, map_id] at hmap
  exact hmap

theorem filter_admitted (group : List Bid) {kept : Bid → Bool} (hkept : ∀ b, admitted texts numbers gt b = kept b) :
    (group.filter fun bid => !isLowPriceBidRejected texts gt bid).filter kept = group.filter (eligible texts numbers gt) := by
  rw [filter_filter]
  exact filter_congr fun b _ => by rw [eligible, hkept b, Bool.and_comm]

theorem sorted_branch {kept : Bid → Bool} {le : Bid → Bid → Bool} (hkept : ∀ b, admitted texts numbers gt b = kept b)
    (hle : asGood texts numbers gt (group.filter (eligible texts numbers gt)) = le) :
    ((group.filter fun bid => !isLowPriceBidRejected texts gt bid).filter kept).mergeSort le =
      (group.filter (eligible texts numbers gt)).mergeSort
        (asGood texts numbers gt (group.filter (eligible texts numbers gt))) := by
  rw [filter_admitted gt group hkept, hle]

theorem sorted_by_scores (score : Bid → Option F) (scores : Dict String (Option F)) (hids : (eligibleBids.map Bid.id).Nodup) :
    (eligibleBids.mergeSort fun x y => scoreOrZero (writeScores score scores eligibleBids) y ≤
        scoreOrZero (writeScores score scores eligibleBids) x) =
      eligibleBids.mergeSort fun x y => (score y).getD 0 ≤ (score x).getD 0 := by
  have hscore (b : Bid) (hb : b ∈ eligibleBids) : scoreOrZero (writeScores score scores eligibleBids) b = (score b).getD 0 := by
    unfold scoreOrZero
    rw [get?_writeScores score scores hids hb]
    rfl
  apply mergeSort_congr
  intro x hx y hy
  rw [hscore x hx, hscore y hy]

theorem sortEligible_eq (scores : Dict String (Option F))
    (hids : (group.map Bid.id).Nodup) : (sortEligible texts numbers gt scores group).1 =
      (group.filter (eligible texts numbers gt)).mergeSort
        (asGood texts numbers gt (group.filter (eligible texts numbers gt))) := by
  have hfilter : ((group.filter (eligible texts numbers gt)).map Bid.id).Nodup :=
    (filter_sublist.map Bid.id).nodup hids
  have hnothing (hnone : ∀ b, admitted texts numbers gt b = false) : [] = (group.filter (eligible texts numbers gt)).mergeSort
        (asGood texts numbers gt (group.filter (eligible texts numbers gt))) := by
    have hempty : group.filter (eligible texts numbers gt) = [] := by
      rw [filter_eq_nil_iff]
      intro b _
      rw [eligible, hnone b, Bool.and_false]
      exact Bool.false_ne_true
    rw [hempty, mergeSort_nil]
  unfold sortEligible
  cases htuVan : isTuVan gt with
  | true =>
    rw [if_pos rfl]
    rcases hmethod : normalizeEvaluationMethod texts gt with - | method
    · exact hnothing fun b => by rw [admitted, if_pos htuVan, hmethod]
    cases method with
    | lowestPrice =>
      apply sorted_branch
      · exact fun b => by rw [admitted, if_pos htuVan, hmethod]
      · exact funext₂ fun x y => by rw [asGood, hmethod]
    | evaluatedPrice => exact hnothing fun b => by rw [admitted, if_pos htuVan, hmethod]
    | fixedPrice =>
      apply sorted_branch
      · exact fun b => by rw [admitted, if_pos htuVan, hmethod]
      · exact funext₂ fun x y => by rw [asGood, hmethod]
    | combinedTechnicalPrice =>
      dsimp only
      rw [filter_admitted gt group fun b => by rw [admitted, if_pos htuVan, hmethod], sorted_by_scores _ _ hfilter]
      congr 1
      exact funext₂ fun x y => by rw [asGood, hmethod, methodScore, methodScore, if_pos htuVan, if_pos htuVan]
    | technicalBased =>
      have hall := @filter_admitted texts F _ _ numbers gt group (fun _ => true) fun b => by
        rw [admitted, if_pos htuVan, hmethod]
      rw [filter_true] at hall
      dsimp only
      rw [hall]
      congr 1
      exact funext₂ fun x y => by rw [asGood, hmethod]
  | false =>
    rw [if_neg Bool.false_ne_true]
    have hother : ¬ isTuVan gt = true := by rw [htuVan]; exact Bool.false_ne_true
    rcases hmethod : normalizeEvaluationMethod texts gt with - | method
    · exact hnothing fun b => by rw [admitted, if_neg hother, hmethod]
    cases method with
    | lowestPrice =>
      apply sorted_branch
      · exact fun b => by rw [admitted, if_neg hother, hmethod]
      · exact funext₂ fun x y => by rw [asGood, hmethod]
    | evaluatedPrice =>
      apply sorted_branch
      · exact fun b => by rw [admitted, if_neg hother, hmethod]
      · exact funext₂ fun x y => by rw [asGood, hmethod]
    | fixedPrice => exact hnothing fun b => by rw [admitted, if_neg hother, hmethod]
    | combinedTechnicalPrice =>
      dsimp only
      rw [filter_admitted gt group fun b => by rw [admitted, if_neg hother, hmethod], sorted_by_scores _ _ hfilter]
      congr 1
      exact funext₂ fun x y => by rw [asGood, hmethod, methodScore, methodScore, if_neg hother, if_neg hother]
    | technicalBased =>
      apply sorted_branch
      · exact fun b => by rw [admitted, if_neg hother, hmethod]
      · exact funext₂ fun x y => by rw [asGood, hmethod]

def groupOf (gt : TenderPackage) (bids : List Bid) (b : Bid) : List Bid :=
  if hasLots gt then bids.filter fun c => lotKey c = lotKey b else bids

variable (bids : List Bid)

theorem get?_addToLot (groups : Dict String (List Bid)) (lot : String) :
    (bids.foldl addToLot groups).get? lot = if (bids.filter fun b => lotKey b = lot) = [] then groups.get? lot
      else some ((groups.get? lot).getD [] ++ bids.filter fun b => lotKey b = lot) := by
  induction bids generalizing groups with
  | nil => rfl
  | cons b bids ih =>
    rw [foldl_cons, ih, addToLot, Dict.get?_set]
    by_cases hlot : lot = lotKey b
    · subst hlot
      rw [if_pos rfl, filter_cons_of_pos (p := fun c => decide (lotKey c = lotKey b)) (decide_eq_true rfl),
        if_neg (cons_ne_nil _ _)]
      split
      · rename_i hnil
        rw [hnil]
      · rw [Option.getD_some, append_assoc, singleton_append]
    · rw [if_neg hlot, filter_cons_of_neg (by simpa using Ne.symm hlot)]

theorem get?_groupsOf {gt : TenderPackage} {bids : List Bid} {key : String}
    (h : (groupsOf gt bids).get? key = some group) : (hasLots gt = true ∧ group = bids.filter fun b => lotKey b = key) ∨
      hasLots gt = false ∧ key = "default" ∧ group = bids := by
  unfold groupsOf at h
  cases hlots : hasLots gt with
  | true =>
    rw [hlots, if_pos rfl, get?_addToLot] at h
    split at h
    · cases h
    · cases h
      exact Or.inl ⟨rfl, rfl⟩
  | false =>
    rw [hlots, if_neg Bool.false_ne_true, Dict.get?_set] at h
    split at h
    · rename_i hkey
      cases h
      exact Or.inr ⟨rfl, hkey, rfl⟩
    · cases h

def groupKey (gt : TenderPackage) (b : Bid) : String := if hasLots gt then lotKey b else "default"

theorem get?_groupsOf_groupKey {bids : List Bid} {b : Bid} (hb : b ∈ bids) :
    (groupsOf gt bids).get? (groupKey gt b) = some (groupOf gt bids b) := by
  unfold groupsOf groupKey groupOf
  cases hlots : hasLots gt with
  | true =>
    have hmem : b ∈ bids.filter fun c => lotKey c = lotKey b := mem_filter.mpr ⟨hb, decide_eq_true rfl⟩
    simp only [if_true]
    rw [get?_addToLot, if_neg (ne_nil_of_mem hmem)]
    rfl
  | false =>
    simp only [Bool.false_eq_true, if_false]
    rw [Dict.get?_set, if_pos rfl]

theorem groupOf_sublist (b : Bid) : (groupOf gt bids b).Sublist bids := by
  unfold groupOf
  split
  · exact filter_sublist
  · exact List.Sublist.refl bids

/-! ## The ranks that are written -/

variable (rankings : Dict String ℕ)

theorem get?_writeRanks_eq (hids : (eligibleBids.map Bid.id).Nodup) (id : String) : (writeRanks rankings eligibleBids).get? id =
      (Dict.lookup id (eligibleBids.zipIdx.map fun entry => (entry.1.id, entry.2 + 1))).or (rankings.get? id) ∧
    ((eligibleBids.zipIdx.map fun entry => (entry.1.id, entry.2 + 1)).map Prod.fst).Nodup := by
  have hkeys : ((eligibleBids.zipIdx.map fun entry => (entry.1.id, entry.2 + 1)).map Prod.fst).Nodup := by
    have hfst : (eligibleBids.zipIdx.map fun entry => (entry.1.id, entry.2 + 1)).map Prod.fst =
        (eligibleBids.zipIdx.map Prod.fst).map Bid.id := by
      rw [map_map, map_map]
      rfl
    rw [hfst, zipIdx_map_fst]
    exact hids
  have hfold : writeRanks rankings eligibleBids = (eligibleBids.zipIdx.map fun entry => (entry.1.id, entry.2 + 1)).foldl
        (fun rankings entry => rankings.set entry.1 entry.2) rankings := by
    rw [foldl_map]
    rfl
  refine ⟨?_, hkeys⟩
  rw [hfold, Dict.get?_foldl_set, Dict.lookup_reverse_of_nodup hkeys]

theorem get?_writeRanks_of_not_mem {id : String} (hids : (eligibleBids.map Bid.id).Nodup) (h : ∀ b ∈ eligibleBids, b.id ≠ id) :
    (writeRanks rankings eligibleBids).get? id = rankings.get? id := by
  have hnone : Dict.lookup id (eligibleBids.zipIdx.map fun entry => (entry.1.id, entry.2 + 1)) = none := by
    rw [Dict.lookup_eq_none_iff]
    intro hmem
    obtain ⟨pair, hpair, rfl⟩ := mem_map.mp hmem
    obtain ⟨entry, hentry, rfl⟩ := mem_map.mp hpair
    exact h entry.1 (fst_mem_of_mem_zipIdx hentry) rfl
  rw [(get?_writeRanks_eq rankings hids id).1, hnone]
  rfl

theorem get?_writeRanks (hids : (eligibleBids.map Bid.id).Nodup)
    {b : Bid} (hb : b ∈ eligibleBids) :
    (writeRanks rankings eligibleBids).get? b.id = some (eligibleBids.idxOf b + 1) := by
  obtain ⟨hget, hkeys⟩ := get?_writeRanks_eq rankings hids b.id
  have hsome : Dict.lookup b.id (eligibleBids.zipIdx.map fun entry => (entry.1.id, entry.2 + 1)) =
      some (eligibleBids.idxOf b + 1) := by
    apply (Dict.mem_entries_iff ⟨_, hkeys⟩ b.id (eligibleBids.idxOf b + 1)).mp
    refine mem_map.mpr ⟨(b, eligibleBids.idxOf b), ?_, rfl⟩
    rw [mem_zipIdx_iff_getElem?]
    exact getElem?_idxOf hb
  rw [hget, hsome]
  rfl

def eligibleWith (texts : TextFunctions) (numbers : NumberFunctions F) (gt : TenderPackage) (bids : List Bid)
    (b : Bid) : List Bid :=
  (groupOf gt bids b).filter (eligible texts numbers gt)

def rankOf (texts : TextFunctions) (numbers : NumberFunctions F) (gt : TenderPackage) (bids : List Bid) (b : Bid) : Option ℕ :=
  (calculateRankings texts numbers gt bids).bind fun result => result.rankings.get? b.id

def LotsNamed (gt : TenderPackage) (bids : List Bid) : Prop :=
  hasLots gt = true → ∀ b ∈ bids, lotKey b ∉ objectProperties

theorem calculateRankings_isSome_iff : (calculateRankings texts numbers gt bids).isSome = true ↔ LotsNamed gt bids := by
  unfold calculateRankings LotsNamed
  cases hlots : hasLots gt with
  | false => simp
  | true =>
    rw [Bool.true_and]
    split
    · rename_i hany
      obtain ⟨b, hb, hname⟩ := any_eq_true.mp hany
      refine iff_of_false Bool.false_ne_true fun h => ?_
      exact h rfl b hb (of_decide_eq_true hname)
    · rename_i hnone
      refine iff_of_true rfl fun _ b hb hname => ?_
      exact hnone (any_eq_true.mpr ⟨b, hb, decide_eq_true hname⟩)

theorem rankOf_eq {gt : TenderPackage} {bids : List Bid} (hids : (bids.map Bid.id).Nodup) (hnamed : LotsNamed gt bids)
    {b : Bid} (hb : b ∈ bids) :
    rankOf texts numbers gt bids b = if eligible texts numbers gt b then
        some (stableRank (asGood texts numbers gt (eligibleWith texts numbers gt bids b))
          (eligibleWith texts numbers gt bids b) b)
      else none := by
  have hresult : calculateRankings texts numbers gt bids =
      some ((groupsOf gt bids).values.foldl (rankGroup texts numbers gt) ⟨empty, empty⟩) := by
    have hsome := (@calculateRankings_isSome_iff texts F _ _ numbers gt bids).mpr hnamed
    unfold calculateRankings at hsome ⊢
    split
    · rename_i hthrows
      rw [if_pos hthrows] at hsome
      cases hsome
    · rfl
  have hsame {c : Bid} (hc : c ∈ bids) (hid : c.id = b.id) : c = b := inj_on_of_nodup_map hids hc hb hid
  have hmem : b ∈ groupOf gt bids b := by
    unfold groupOf
    split
    · exact mem_filter.mpr ⟨hb, decide_eq_true rfl⟩
    · exact hb
  unfold rankOf
  rw [hresult, Option.bind_some, values, foldl_map]
  have hget := get?_groupsOf_groupKey gt hb
  rw [foldl_entries _ (fun state : Rankings F => state.rankings.get? b.id) (fun _ old =>
      if eligible texts numbers gt b then
        some (stableRank (asGood texts numbers gt (eligibleWith texts numbers gt bids b))
          (eligibleWith texts numbers gt bids b) b)
      else old) (groupKey gt b) (groupsOf gt bids) ?_, hget, Option.map_some, Option.getD_some]
  · rfl
  rintro state ⟨key, group⟩ hentry
  have hfound := (mem_entries_iff _ _ _).mp hentry
  by_cases hkey : key = groupKey gt b
  · subst hkey
    obtain rfl := Option.some.inj (hget.symm.trans hfound)
    rw [if_pos rfl]
    have hsublist := groupOf_sublist gt bids b
    have hgroupIds : ((groupOf gt bids b).map Bid.id).Nodup := (hsublist.map Bid.id).nodup hids
    have hsortedIds : (((groupOf gt bids b).filter (eligible texts numbers gt)).mergeSort
        (asGood texts numbers gt ((groupOf gt bids b).filter (eligible texts numbers gt)))
          |>.map Bid.id).Nodup := by
      rw [((mergeSort_perm _ _).map Bid.id).nodup_iff]
      exact (filter_sublist.map Bid.id).nodup hgroupIds
    unfold rankGroup
    dsimp only
    rw [sortEligible_eq gt state.scores hgroupIds]
    split
    · rename_i heligible
      exact get?_writeRanks state.rankings hsortedIds (mem_mergeSort.mpr (mem_filter.mpr ⟨hmem, heligible⟩))
    rename_i hrejected
    apply get?_writeRanks_of_not_mem state.rankings hsortedIds
    intro c hc hid
    obtain ⟨hgroup, heligible⟩ := mem_filter.mp (mem_mergeSort.mp hc)
    rw [hsame (hsublist.subset hgroup) hid] at heligible
    exact hrejected heligible
  · have hgroup : group.Sublist bids ∧ b ∉ group := by
      rcases get?_groupsOf hfound with ⟨hlots, rfl⟩ | ⟨hlots, rfl, rfl⟩
      · refine ⟨filter_sublist, fun hin => hkey ?_⟩
        unfold groupKey
        rw [if_pos hlots]
        exact (of_decide_eq_true (mem_filter.mp hin).2).symm
      · refine absurd ?_ hkey
        unfold groupKey
        rw [hlots]
        rfl
    rw [if_neg hkey]
    have hgroupIds : (group.map Bid.id).Nodup := (hgroup.1.map Bid.id).nodup hids
    unfold rankGroup
    dsimp only
    rw [sortEligible_eq gt state.scores hgroupIds]
    apply get?_writeRanks_of_not_mem
    · rw [((mergeSort_perm _ _).map Bid.id).nodup_iff]
      exact (filter_sublist.map Bid.id).nodup hgroupIds
    · intro c hc hid
      have hin := (mem_filter.mp (mem_mergeSort.mp hc)).1
      rw [hsame (hgroup.1.subset hin) hid] at hin
      exact hgroup.2 hin

theorem foldl_pick {pick : α → α → α} {good : α → α → Prop} (hrefl : ∀ a, good a a)
    (htrans : ∀ a b c, good a b → good b c → good a c) (hpick : ∀ a b, pick a b = a ∨ pick a b = b)
    (hleft : ∀ a b, good (pick a b) a) (hright : ∀ a b, good (pick a b) b) (a : α) (l : List α) :
    l.foldl pick a ∈ a :: l ∧ ∀ b ∈ a :: l, good (l.foldl pick a) b := by
  induction l generalizing a with
  | nil => exact ⟨mem_cons_self, fun b hb => by rw [mem_singleton.mp hb]; exact hrefl a⟩
  | cons c l ih =>
    obtain ⟨hmem, hgood⟩ := ih (pick a c)
    rw [foldl_cons]
    constructor
    · rcases mem_cons.mp hmem with heq | hlater
      · rw [heq]
        rcases hpick a c with hpicked | hpicked
        · rw [hpicked]
          exact mem_cons_self
        · rw [hpicked]
          exact mem_cons_of_mem a mem_cons_self
      · exact mem_cons_of_mem a (mem_cons_of_mem c hlater)
    · intro b hb
      have hfirst := hgood (pick a c) mem_cons_self
      rcases mem_cons.mp hb with rfl | hb'
      · exact htrans _ _ _ hfirst (hleft b c)
      · rcases mem_cons.mp hb' with rfl | hlater
        · exact htrans _ _ _ hfirst (hright a b)
        · exact hgood b (mem_cons_of_mem _ hlater)

theorem lowestPrice_perm (h : left.Perm right) : lowestPrice left = lowestPrice right := by
  have hprices : ((left.map getRankingPrice).filter fun p => p > 0).Perm
      ((right.map getRankingPrice).filter fun p => p > 0) := (h.map getRankingPrice).filter _
  unfold lowestPrice
  dsimp only
  generalize (left.map getRankingPrice).filter (fun p => p > 0) = prices at hprices
  generalize (right.map getRankingPrice).filter (fun p => p > 0) = prices' at hprices
  have hspec (a : ℕ) (l : List ℕ) := @foldl_pick ℕ (fun minimum price => if price < minimum then price else minimum)
    (· ≤ ·) le_refl (fun _ _ _ => le_trans) (fun a b => by split <;> simp)
    (fun a b => by split <;> omega) (fun a b => by split <;> omega) a l
  cases prices with
  | nil => rw [nil_perm.mp hprices]
  | cons a l =>
    cases prices' with
    | nil => exact absurd hprices.length_eq (by simp)
    | cons a' l' =>
      obtain ⟨hmem, hgood⟩ := hspec a (a :: l)
      obtain ⟨hmem', hgood'⟩ := hspec a' (a' :: l')
      have hin : (a :: l).foldl (fun minimum price => if price < minimum then price else minimum) a ∈ a :: l := by
        simpa using hmem
      have hin' : (a' :: l').foldl (fun minimum price => if price < minimum then price else minimum) a' ∈ a' :: l' := by
        simpa using hmem'
      exact le_antisymm (hgood _ (mem_cons_of_mem a (hprices.mem_iff.mpr hin')))
        (hgood' _ (mem_cons_of_mem a' (hprices.mem_iff.mp hin)))

theorem highestTechScore_perm (h : left.Perm right) : highestTechScore numbers left = highestTechScore numbers right := by
  have hscores := h.map (getTechScore numbers)
  unfold highestTechScore
  generalize left.map (getTechScore numbers) = scores at hscores
  generalize right.map (getTechScore numbers) = scores' at hscores
  have hspec (a : F) (l : List F) := @foldl_pick F max (· ≥ ·) le_refl (fun _ _ _ hab hbc => le_trans hbc hab)
    max_choice le_max_left le_max_right a l
  cases scores with
  | nil => rw [nil_perm.mp hscores]
  | cons a l =>
    cases scores' with
    | nil => exact absurd hscores.length_eq (by simp)
    | cons a' l' =>
      obtain ⟨hmem, hgood⟩ := hspec a l
      obtain ⟨hmem', hgood'⟩ := hspec a' l'
      exact le_antisymm (hgood' _ (hscores.mem_iff.mp hmem)) (hgood _ (hscores.mem_iff.mpr hmem'))

theorem asGood_perm (h : left.Perm right) : asGood texts numbers gt left = asGood texts numbers gt right := by
  have hscore : methodScore numbers gt left = methodScore numbers gt right := by
    funext b
    unfold methodScore consultingScore combinedScore
    rw [lowestPrice_perm h, highestTechScore_perm h]
  funext x y
  unfold asGood
  rw [hscore]

/-! ## Sound rankings -/

def normalizedLot (texts : TextFunctions) (gt : TenderPackage) (b : Bid) : String :=
  if hasLots gt then normalizeLotCode texts (lotKey b) else ""

def eligibleInLot (texts : TextFunctions) (numbers : NumberFunctions F) (gt : TenderPackage) (bids : List Bid)
    (b : Bid) : List Bid :=
  bids.filter fun c => eligible texts numbers gt c && normalizedLot texts gt c = normalizedLot texts gt b

/-- The prices of a bid that the ranking of its package compares: those of the low-price rule, and those its method
compares. A package by evaluated price compares no other price, as a bid without a ranking price is not ranked. -/
def comparedPrices (texts : TextFunctions) (gt : TenderPackage) (b : Bid) : List Price :=
  [b.giaDeNghiTrungThau, getProposedAwardReferencePrice texts gt b] ++ match normalizeEvaluationMethod texts gt with
    | some .lowestPrice | some .combinedTechnicalPrice => [b.giaXepHang]
    | some .evaluatedPrice => if isTuVan gt then [] else [b.giaXepHang]
    | some .fixedPrice =>
      if isTuVan gt then [if b.giaSauGiamGia.truthy then b.giaSauGiamGia else b.giaDuThau, gt.giaGoiThau] else []
    | _ => []

/-- A ranking is sound: in every lot the eligible bids have the ranks from 1 on, and no other bid has one; a better
bid has the smaller rank; the ranks do not depend on the order of the bids; and prices are compared by value. -/
structure RankingSound (texts : TextFunctions) (numbers : NumberFunctions F) (gt : TenderPackage) (bids : List Bid) : Prop where
  returns : (calculateRankings texts numbers gt bids).isSome = true
  ranked : ∀ b ∈ bids, (rankOf texts numbers gt bids b).isSome = eligible texts numbers gt b
  places : ∀ b ∈ bids, ((eligibleInLot texts numbers gt bids b).map (rankOf texts numbers gt bids)).Perm
    ((List.range' 1 (eligibleInLot texts numbers gt bids b).length).map some)
  better : ∀ b ∈ bids, ∀ c ∈ eligibleInLot texts numbers gt bids b, eligible texts numbers gt b = true →
    asGood texts numbers gt (eligibleInLot texts numbers gt bids b) c b = false →
    ∃ rank rank', rankOf texts numbers gt bids b = some rank ∧ rankOf texts numbers gt bids c = some rank' ∧ rank < rank'
  anyOrder : ∀ bids', bids'.Perm bids → ∀ b ∈ bids, rankOf texts numbers gt bids' b = rankOf texts numbers gt bids b
  byValue : ∀ b ∈ bids, ∀ price ∈ comparedPrices texts gt b, price.ReadAtValue

/-- The bids decide their ranking: no lot is named like a property of an object, the eligible bids of a lot write
its code alike, no two of them tie, and every price that is compared is whole. -/
structure BidsDecide (texts : TextFunctions) (numbers : NumberFunctions F) (gt : TenderPackage) (bids : List Bid) : Prop where
  named : LotsNamed gt bids
  codes : ∀ b ∈ bids, eligible texts numbers gt b = true → ∀ c ∈ eligibleInLot texts numbers gt bids b,
    groupKey gt c = groupKey gt b
  ties : ∀ b ∈ bids, eligible texts numbers gt b = true → ∀ c ∈ eligibleInLot texts numbers gt bids b,
    asGood texts numbers gt (eligibleInLot texts numbers gt bids b) b c = true →
    asGood texts numbers gt (eligibleInLot texts numbers gt bids b) c b = true → b = c
  whole : ∀ b ∈ bids, ∀ price ∈ comparedPrices texts gt b, price.isWhole = true

section Sound

variable {gt : TenderPackage} {bids : List Bid} {b : Bid} {c : Bid} {bids' : List Bid}

theorem mem_eligibleInLot : c ∈ eligibleInLot texts numbers gt bids b ↔
    c ∈ bids ∧ eligible texts numbers gt c = true ∧ normalizedLot texts gt c = normalizedLot texts gt b := by
  unfold eligibleInLot
  rw [mem_filter, Bool.and_eq_true, decide_eq_true_iff]

theorem mem_eligibleWith : c ∈ eligibleWith texts numbers gt bids b ↔
    c ∈ bids ∧ eligible texts numbers gt c = true ∧ groupKey gt c = groupKey gt b := by
  unfold eligibleWith groupOf groupKey
  rw [mem_filter]
  cases hasLots gt with
  | true =>
    simp only [if_true]
    rw [mem_filter, decide_eq_true_iff, and_assoc]
    exact and_congr_right fun _ => And.comm
  | false => simp

theorem normalizedLot_of_groupKey (h : groupKey gt c = groupKey gt b) :
    normalizedLot texts gt c = normalizedLot texts gt b := by
  unfold groupKey at h
  unfold normalizedLot
  cases hlots : hasLots gt with
  | true =>
    rw [hlots, if_pos rfl, if_pos rfl] at h
    rw [if_pos rfl, if_pos rfl, h]
  | false => rfl

theorem eligibleInLot_eq (hcodes : ∀ c ∈ eligibleInLot texts numbers gt bids b, groupKey gt c = groupKey gt b) :
    eligibleInLot texts numbers gt bids b = eligibleWith texts numbers gt bids b := by
  have hfilter : eligibleWith texts numbers gt bids b =
      bids.filter fun c => eligible texts numbers gt c && groupKey gt c = groupKey gt b := by
    unfold eligibleWith groupOf groupKey
    cases hasLots gt with
    | true =>
      simp only [if_true]
      exact filter_filter
    | false => simp
  rw [hfilter]
  apply filter_congr
  intro c hc
  cases heligible : eligible texts numbers gt c with
  | false => rfl
  | true =>
    rw [Bool.true_and, Bool.true_and]
    apply Bool.decide_congr
    exact ⟨fun hlot => hcodes c (mem_eligibleInLot.mpr ⟨hc, heligible, hlot⟩), normalizedLot_of_groupKey⟩

theorem eligibleWith_perm (h : bids'.Perm bids) :
    (eligibleWith texts numbers gt bids' b).Perm (eligibleWith texts numbers gt bids b) := by
  unfold eligibleWith groupOf
  split
  · exact (h.filter _).filter _
  · exact h.filter _

theorem eligibleWith_reverse :
    eligibleWith texts numbers gt bids.reverse b = (eligibleWith texts numbers gt bids b).reverse := by
  unfold eligibleWith groupOf
  split
  · rw [filter_reverse, filter_reverse]
  · rw [filter_reverse]

theorem LotsNamed.perm (hnamed : LotsNamed gt bids) (h : bids'.Perm bids) : LotsNamed gt bids' :=
  fun hlots b hb => hnamed hlots b (h.mem_iff.mp hb)

variable (hids : (bids.map Bid.id).Nodup)

include hids

theorem nodup_eligibleWith : (eligibleWith texts numbers gt bids b).Nodup :=
  filter_sublist.nodup ((groupOf_sublist gt bids b).nodup (List.Nodup.of_map Bid.id hids))

theorem rankOf_eligible (hnamed : LotsNamed gt bids) (hc : c ∈ eligibleWith texts numbers gt bids b) :
    rankOf texts numbers gt bids c = some (stableRank (asGood texts numbers gt (eligibleWith texts numbers gt bids b))
        (eligibleWith texts numbers gt bids b) c) := by
  obtain ⟨hmem, heligible, hkey⟩ := mem_eligibleWith.mp hc
  have hsame : eligibleWith texts numbers gt bids c = eligibleWith texts numbers gt bids b := by
    unfold groupKey at hkey
    unfold eligibleWith groupOf
    cases hlots : hasLots gt with
    | true =>
      rw [hlots, if_pos rfl, if_pos rfl] at hkey
      rw [if_pos rfl, if_pos rfl, hkey]
    | false => rfl
  rw [rankOf_eq hids hnamed hmem, if_pos heligible, hsame]

theorem exists_first (hnamed : LotsNamed gt bids) (hb : b ∈ bids) (heligible : eligible texts numbers gt b = true) :
    ∃ c ∈ eligibleWith texts numbers gt bids b, rankOf texts numbers gt bids c = some 1 := by
  have hmem : b ∈ eligibleWith texts numbers gt bids b := mem_eligibleWith.mpr ⟨hb, heligible, rfl⟩
  have hranks := @stableRanks_perm Bid _ (asGood texts numbers gt (eligibleWith texts numbers gt bids b))
    (eligibleWith texts numbers gt bids b) (nodup_eligibleWith hids)
  have hone : 1 ∈ List.range' 1 (eligibleWith texts numbers gt bids b).length := by
    rw [mem_range'_1]
    have hlength := length_pos_of_mem hmem
    omega
  obtain ⟨c, hc, hrank⟩ := mem_map.mp (hranks.mem_iff.mpr hone)
  refine ⟨c, hc, ?_⟩
  rw [rankOf_eligible hids hnamed hc, hrank]

section

variable (hsound : RankingSound texts numbers gt bids)
include hsound

omit hids in
theorem RankingSound.named : LotsNamed gt bids :=
  (calculateRankings_isSome_iff gt bids).mp hsound.returns

theorem RankingSound.codes (hb : b ∈ bids)
    (heligible : eligible texts numbers gt b = true) (hc : c ∈ eligibleInLot texts numbers gt bids b) :
    groupKey gt c = groupKey gt b := by
  by_contra hkey
  obtain ⟨hcmem, hceligible, hlot⟩ := mem_eligibleInLot.mp hc
  obtain ⟨x, hx, hrank⟩ := exists_first hids hsound.named hb heligible
  obtain ⟨y, hy, hrank'⟩ := exists_first hids hsound.named hcmem hceligible
  obtain ⟨hxmem, hxeligible, hxkey⟩ := mem_eligibleWith.mp hx
  obtain ⟨hymem, hyeligible, hykey⟩ := mem_eligibleWith.mp hy
  have hxlot := mem_eligibleInLot.mpr ⟨hxmem, hxeligible, normalizedLot_of_groupKey hxkey⟩
  have hylot := mem_eligibleInLot.mpr ⟨hymem, hyeligible, (normalizedLot_of_groupKey hykey).trans hlot⟩
  have hnodup : ((eligibleInLot texts numbers gt bids b).map (rankOf texts numbers gt bids)).Nodup :=
    (hsound.places b hb).nodup_iff.mpr ((nodup_range' 1).map (Option.some_injective ℕ))
  have hsame := inj_on_of_nodup_map hnodup hxlot hylot (hrank.trans hrank'.symm)
  rw [← hsame, hxkey] at hykey
  exact hkey hykey.symm

theorem RankingSound.ties (hb : b ∈ bids)
    (heligible : eligible texts numbers gt b = true) (hc : c ∈ eligibleInLot texts numbers gt bids b)
    (hbc : asGood texts numbers gt (eligibleInLot texts numbers gt bids b) b c = true)
    (hcb : asGood texts numbers gt (eligibleInLot texts numbers gt bids b) c b = true) : b = c := by
  have hlot : eligibleInLot texts numbers gt bids b = eligibleWith texts numbers gt bids b :=
    eligibleInLot_eq fun d hd => hsound.codes hids hb heligible hd
  rw [hlot] at hc hbc hcb
  by_contra hne
  have hmem : b ∈ eligibleWith texts numbers gt bids b := mem_eligibleWith.mpr ⟨hb, heligible, rfl⟩
  have hids' : (bids.reverse.map Bid.id).Nodup := by
    rw [map_reverse]
    exact nodup_reverse.mpr hids
  have hreverse (d : Bid) (hd : d ∈ eligibleWith texts numbers gt bids b) :
      stableRank (asGood texts numbers gt (eligibleWith texts numbers gt bids b))
          (eligibleWith texts numbers gt bids b).reverse d =
        stableRank (asGood texts numbers gt (eligibleWith texts numbers gt bids b))
          (eligibleWith texts numbers gt bids b) d := by
    have hd' : d ∈ eligibleWith texts numbers gt bids.reverse b := by
      rw [eligibleWith_reverse]
      exact mem_reverse.mpr hd
    have horder := hsound.anyOrder bids.reverse (reverse_perm bids) d (mem_eligibleWith.mp hd).1
    rw [rankOf_eligible hids hsound.named hd,
      rankOf_eligible hids' (hsound.named.perm (reverse_perm bids)) hd', eligibleWith_reverse,
      asGood_perm gt (reverse_perm _)] at horder
    exact Option.some.inj horder
  exact stableRank_reverse_of_tie (totalPreorder_asGood gt _) (nodup_eligibleWith hids) hmem hc hne hbc hcb
    ⟨hreverse b hmem, hreverse c hc⟩

end

section

variable (hdecide : BidsDecide texts numbers gt bids)
include hdecide

omit hids in
theorem BidsDecide.lot (hb : b ∈ bids) (heligible : eligible texts numbers gt b = true) :
    eligibleInLot texts numbers gt bids b = eligibleWith texts numbers gt bids b :=
  eligibleInLot_eq (hdecide.codes b hb heligible)

theorem BidsDecide.places : ((eligibleInLot texts numbers gt bids b).map (rankOf texts numbers gt bids)).Perm
    ((List.range' 1 (eligibleInLot texts numbers gt bids b).length).map some) := by
  cases hlist : eligibleInLot texts numbers gt bids b with
  | nil => exact List.Perm.refl _
  | cons d rest =>
    obtain ⟨hd, hdeligible, hdlot⟩ := mem_eligibleInLot.mp (by rw [hlist]; exact mem_cons_self)
    have hsame : eligibleInLot texts numbers gt bids b = eligibleWith texts numbers gt bids d := by
      rw [← hdecide.lot hd hdeligible]
      unfold eligibleInLot
      rw [hdlot]
    rw [← hlist, hsame]
    have hmap : (eligibleWith texts numbers gt bids d).map (rankOf texts numbers gt bids) =
        ((eligibleWith texts numbers gt bids d).map (stableRank (asGood texts numbers gt (eligibleWith texts numbers gt bids d))
            (eligibleWith texts numbers gt bids d))).map some := by
      rw [map_map]
      exact map_congr_left fun c hc => rankOf_eligible hids hdecide.named hc
    rw [hmap]
    exact (stableRanks_perm (nodup_eligibleWith hids)).map some

omit hids in
theorem BidsDecide.strict (hb : b ∈ bids) (heligible : eligible texts numbers gt b = true) :
    ∀ c ∈ eligibleWith texts numbers gt bids b, ∀ d ∈ eligibleWith texts numbers gt bids b,
      asGood texts numbers gt (eligibleWith texts numbers gt bids b) c d = true →
      asGood texts numbers gt (eligibleWith texts numbers gt bids b) d c = true → c = d := by
  intro c hc d hd hcd hdc
  obtain ⟨hcmem, hceligible, hckey⟩ := mem_eligibleWith.mp hc
  obtain ⟨hdmem, hdeligible, hdkey⟩ := mem_eligibleWith.mp hd
  have hsame : eligibleInLot texts numbers gt bids c = eligibleWith texts numbers gt bids b := by
    rw [← hdecide.lot hb heligible]
    unfold eligibleInLot
    rw [normalizedLot_of_groupKey hckey]
  have hdlot := mem_eligibleInLot.mpr ⟨hdmem, hdeligible, (@normalizedLot_of_groupKey texts gt c d (hdkey.trans hckey.symm))⟩
  apply hdecide.ties c hcmem hceligible d hdlot
  · rw [hsame]
    exact hcd
  · rw [hsame]
    exact hdc

theorem BidsDecide.anyOrder (hperm : bids'.Perm bids)
    (hb : b ∈ bids) : rankOf texts numbers gt bids' b = rankOf texts numbers gt bids b := by
  have hids' : (bids'.map Bid.id).Nodup := (hperm.map Bid.id).nodup_iff.mpr hids
  rw [rankOf_eq hids hdecide.named hb, rankOf_eq hids' (hdecide.named.perm hperm) (hperm.mem_iff.mpr hb)]
  split
  · rename_i heligible
    have hlists := @eligibleWith_perm texts F _ _ numbers gt bids b bids' hperm
    unfold stableRank
    rw [asGood_perm gt hlists, mergeSort_eq_of_perm (totalPreorder_asGood gt _) hlists (hdecide.strict hb heligible)]
  · rfl

end

/-- A ranking is sound exactly when the bids decide it. -/
theorem ranking_sound_iff : RankingSound texts numbers gt bids ↔ BidsDecide texts numbers gt bids := by
  constructor
  · intro hsound
    constructor
    · exact hsound.named
    · exact fun b hb heligible c hc => hsound.codes hids hb heligible hc
    · exact fun b hb heligible c hc => hsound.ties hids hb heligible hc
    · exact fun b hb price hprice => (readAtValue_iff price).mp (hsound.byValue b hb price hprice)
  · intro hdecide
    constructor
    · exact (calculateRankings_isSome_iff gt bids).mpr hdecide.named
    · intro b hb
      rw [rankOf_eq hids hdecide.named hb]
      cases eligible texts numbers gt b <;> rfl
    · exact fun b _ => hdecide.places hids
    · intro b hb c hc heligible hworse
      rw [hdecide.lot hb heligible] at hc hworse
      have hmem : b ∈ eligibleWith texts numbers gt bids b := mem_eligibleWith.mpr ⟨hb, heligible, rfl⟩
      exact ⟨_, _, rankOf_eligible hids hdecide.named hmem, rankOf_eligible hids hdecide.named hc,
        stableRank_lt_of_strict (totalPreorder_asGood gt _) hmem hc hworse⟩
    · exact fun bids' hperm b hb => hdecide.anyOrder hids hperm hb
    · exact fun b hb price hprice => (readAtValue_iff price).mpr (hdecide.whole b hb price hprice)

end Sound

end Ranking

def plainTexts : TextFunctions where
  nfd := id
  lowerVi text := String.ofList (text.toList.map Char.toLower)
  lower text := String.ofList (text.toList.map Char.toLower)

def wholeNumbers : NumberFunctions ℕ where
  ofText text := if isDigits text.toList then some (Nat.ofDigitChars 10 text.toList 0) else none
  parseFloat text := if isDigits text.toList then some (Nat.ofDigitChars 10 text.toList 0) else none
  ofAmount amount := amount
  consultingScore _ _ _ tech := some tech
  combinedScore _ _ _ tech _ := some tech

theorem trimmed_nil : ([] : List (Fin 10)).getLast? ≠ some 0 := by decide

def samplePackage (linhVuc method : String) : TenderPackage :=
  ⟨linhVuc, "Không", none, some method, .decimal false 1000 ⟨[], trimmed_nil⟩, [], none⟩

def sampleBid (id : String) (giaSauGiamGia giaXepHang : Price) : Bid :=
  ⟨id, "", "", "", "", "Đạt", .missing, giaSauGiamGia, giaXepHang, .missing, .missing, .null⟩

def dong (amount : ℕ) : Price := .decimal false amount ⟨[], trimmed_nil⟩

theorem ranking_sound_sample : RankingSound plainTexts wholeNumbers (samplePackage "Xây lắp" "LOWEST_PRICE")
    [sampleBid "a" .missing (dong 900), sampleBid "b" .missing (dong 800)] := by
  refine (ranking_sound_iff (by decide)).mpr ⟨?_, ?_, ?_, ?_⟩
  · unfold LotsNamed
    decide
  · decide
  · decide
  · decide

/-- A discounted price of 999.5 đồng is read as 9995 đồng, above the price of the package, so that its bid is not
ranked; and of two bids at 800 đồng the one that is listed first is ranked first. -/
theorem discounted_price_misread : (moneyBigInt (.decimal false 999 ⟨[5], by decide⟩) = 9995 ∧
    ¬ RankingSound plainTexts wholeNumbers (samplePackage "Tư vấn" "FIXED_PRICE")
      [sampleBid "a" (.decimal false 999 ⟨[5], by decide⟩) .missing]) ∧
    ¬ RankingSound plainTexts wholeNumbers (samplePackage "Xây lắp" "LOWEST_PRICE")
      [sampleBid "a" .missing (dong 800), sampleBid "b" .missing (dong 800)] := by
  refine ⟨⟨by decide, fun hsound => ?_⟩, fun hsound => ?_⟩
  · have hvalue := hsound.byValue (sampleBid "a" (.decimal false 999 ⟨[5], by decide⟩) .missing) mem_cons_self
      (.decimal false 999 ⟨[5], by decide⟩) (by decide)
    rw [readAtValue_iff] at hvalue
    revert hvalue
    decide
  · have htie := hsound.ties (by decide) (b := sampleBid "a" .missing (dong 800))
      (c := sampleBid "b" .missing (dong 800)) (by decide) (by decide) (by decide) (by decide) (by decide)
    revert htie
    decide

end Bidding.Evaluation
