import Bidding.Procurement.Enriched

/-!
# Looking notices up one by one or together

The workers of all notices leave what one pass over the revisions leaves, if every worker that finished is reported, and if
no package is found under the key of another one that its notice changes otherwise.
-/

namespace Bidding.Enrichment

open Foundations List
open Option hiding all_eq_true filter_map map_id map_map
open Bidding.ImportDecisions (valueOf)
open Bidding.Procurement (upperCode)

variable {ε : Type} (source : Source ε) {revisions : List (List Record)} (run : Run ε revisions) {package : Record}

def succeeds (noticeNo : String) : Bool :=
  decide (noticeNo ∈ run.reported ++ run.unreported) && (enrichOne source run noticeNo).isOk

def Source.only (p : String → Bool) : Source ε :=
  { source with
    lookupCompleteBundle := fun noticeNo => if p noticeNo then source.lookupCompleteBundle noticeNo else .ok none
    listNoticeRevisions := fun noticeNo => if p noticeNo then source.listNoticeRevisions noticeNo else .ok [] }

/-- The workers leave the packages and the histories that the pass over the revisions leaves in which the notices are
found whose workers succeed, and there is one failure for each of the others. -/
structure MatchesSequential : Prop where
  sequential : ∃ history, enrichRevisions (source.only (succeeds source run)) none revisions .empty =
      .ok ((enrichLinkedNoticesBounded source run).revisions, history) ∧
    ∀ noticeNo, (enrichLinkedNoticesBounded source run).history.get? noticeNo = history.get? noticeNo
  failuresOnce : ((enrichLinkedNoticesBounded source run).failures.map Failure.noticeNo).Nodup
  failed : ∀ noticeNo, noticeNo ∈ (enrichLinkedNoticesBounded source run).failures.map Failure.noticeNo ↔
    noticeNo ∈ linkedNotices revisions ∧ succeeds source run noticeNo = false

def answered (noticeNo : String) : Bool :=
  decide (noticeNo ∈ run.reported ++ run.unreported) && (run.tooLong noticeNo).isNone &&
    revisions.all fun packages => packages.all fun package =>
      linkedNotice package ≠ some noticeNo || isLookable source noticeNo package

def withNotice (package : Record) : Record :=
  match linkedNotice package with
  | some noticeNo => if answered source run noticeNo then enrichedWith source noticeNo package else package
  | none => package

def writers (packages : List Record) : List Record :=
  (run.reported.filter (answered source run)).flatMap fun noticeNo =>
    packages.filter fun package => noticeNumber package = noticeNo

def lastWriter (packages : List Record) (package : Record) : Option Record :=
  (writers source run packages).reverse.find? fun other => packageKey other = packageKey package

/-- Every package is put back where it was, or something that is the same. A package whose key comes again later is left
as it is by its notice, and the last package of a key becomes what the last package of this key becomes that is put back. -/
def KeysApart (packages : List Record) : Prop :=
  ∀ i package, packages[i]? = some package → if lastIndex (packageKey package) (packages.map packageKey) = some i then
      ∀ writer, lastWriter source run packages package = some writer →
        withNotice source run writer = withNotice source run package
    else withNotice source run package = package

/-- No worker finished unreported but in time with nothing found, and the keys are apart. -/
structure Undisturbed : Prop where
  unreported : ∀ noticeNo ∈ run.unreported, findNotice source noticeNo = .ok none ∧ run.tooLong noticeNo = none
  apart : ∀ packages ∈ revisions, KeysApart source run packages

/-! ## The worker of a notice -/

def childOf (noticeNo : String) (package : Record) : Record :=
  if linkedNotice package = some noticeNo then enrichedWith source noticeNo package else package

theorem linkedNotice_eq_some {noticeNo : String} (h : linkedNotice package = some noticeNo) :
    noticeNumber package = noticeNo ∧ noticeNo ≠ "" := by
  obtain ⟨hlinked, hnumber⟩ := ite_none_right_eq_some.mp h
  exact ⟨some.inj hnumber, some.inj hnumber ▸ hlinked.2⟩

theorem mem_linkedNotices (noticeNo : String) :
    noticeNo ∈ linkedNotices revisions ↔ ∃ packages ∈ revisions, ∃ package ∈ packages, linkedNotice package = some noticeNo := by
  unfold linkedNotices
  simp [mem_eraseDups]

variable {noticeNo : String}

section

variable (h : noticeNo ∈ linkedNotices revisions)
include h

theorem admittedNotice_some (package : Record) :
    admittedNotice (some noticeNo) package = if linkedNotice package = some noticeNo then some noticeNo else none := by
  obtain ⟨_, -, other, -, hother⟩ := (mem_linkedNotices noticeNo).mp h
  obtain ⟨hnumber, hne⟩ := linkedNotice_eq_some hother
  have hcode : upperCode (pyStrip noticeNo) = noticeNo := by
    rw [← hnumber]
    exact upperCode_pyStrip_numberText _
  unfold admittedNotice
  simp only [hcode]
  cases linkedNotice package with
  | none => rfl
  | some linked =>
    by_cases hsame : linked = noticeNo
    · simp [hsame]
    · simp [hsame, hne]

theorem enrichedUnder_some : enrichedUnder source (some noticeNo) = childOf source noticeNo := by
  funext package
  unfold enrichedUnder childOf
  rw [admittedNotice_some h]
  split_ifs <;> rfl

theorem isAdmissible_some (package : Record) : IsAdmissible source (some noticeNo) package ↔
    (linkedNotice package ≠ some noticeNo || isLookable source noticeNo package) = true := by
  unfold IsAdmissible
  rw [admittedNotice_some h]
  by_cases hlinked : linkedNotice package = some noticeNo
  · simp [hlinked]
  · simp [hlinked]

theorem enrichOne_ok_iff (result : List (List Record) × History) : enrichOne source run noticeNo = .ok result ↔
    ((run.tooLong noticeNo).isNone = true ∧
      (revisions.all fun packages => packages.all fun package =>
        linkedNotice package ≠ some noticeNo || isLookable source noticeNo package) = true) ∧
    result = (revisions.map (List.map (childOf source noticeNo)),
      revisions.flatten.foldl (rememberedUnder source (some noticeNo)) .empty) := by
  have hpass := enrichRevisions_ok_iff source (some noticeNo) revisions .empty
  simp only [isAdmissible_some source h, enrichedUnder_some source h] at hpass
  simp only [all_eq_true]
  constructor
  · intro hone
    obtain ⟨answer, hanswer, hone⟩ := bind_ok hone
    obtain ⟨hadmissible, rfl⟩ := (hpass answer).mp hanswer
    cases hlong : run.tooLong noticeNo with
    | some error =>
      rw [hlong] at hone
      cases hone
    | none =>
      rw [hlong] at hone
      cases hone
      exact ⟨⟨rfl, hadmissible⟩, rfl⟩
  · intro ⟨⟨hlong, hadmissible⟩, hresult⟩
    apply bind_eq_ok.mpr
    refine ⟨_, (hpass _).mpr ⟨hadmissible, rfl⟩, ?_⟩
    rw [isNone_iff_eq_none.mp hlong, hresult]
    rfl

end

theorem finished_linked (h : noticeNo ∈ run.reported ++ run.unreported) :
    noticeNo ∈ linkedNotices revisions := run.known noticeNo h

theorem isOk_iff_exists {α : Type} (x : Except ε α) : x.isOk = true ↔ ∃ a, x = .ok a := by
  cases x with
  | error e => simp [Except.isOk, Except.toBool]
  | ok a => simp [Except.isOk, Except.toBool]

theorem succeeds_eq_answered : succeeds source run = answered source run := by
  funext noticeNo
  unfold succeeds answered
  rw [Bool.and_assoc]
  by_cases hmem : noticeNo ∈ run.reported ++ run.unreported
  · have hok : (enrichOne source run noticeNo).isOk = true ↔ _ :=
      (isOk_iff_exists _).trans (exists_congr fun result => enrichOne_ok_iff source run (finished_linked run hmem) result)
    rw [exists_and_left] at hok
    apply congrArg (decide (noticeNo ∈ run.reported ++ run.unreported) && ·)
    apply Bool.eq_iff_iff.mpr
    rw [hok, Bool.and_eq_true]
    exact and_iff_left ⟨_, rfl⟩
  · simp [hmem]

variable (p : String → Bool) {packages : List Record}

theorem findNotice_only (noticeNo : String) :
    findNotice (source.only p) noticeNo = if p noticeNo then findNotice source noticeNo else .ok none := by
  unfold findNotice Source.only
  by_cases h : p noticeNo = true
  · simp only [h, if_true]
    rfl
  · simp [h, bind, Except.bind, pure, Except.pure]

theorem isLookable_only (noticeNo : String) (package : Record) :
    isLookable (source.only p) noticeNo package = (!p noticeNo || isLookable source noticeNo package) := by
  unfold isLookable
  rw [findNotice_only]
  by_cases h : p noticeNo = true
  · simp [h]
  · simp [h]

theorem enrichedWith_only (noticeNo : String) (package : Record) : enrichedWith (source.only p) noticeNo package =
    if p noticeNo then enrichedWith source noticeNo package else package := by
  unfold enrichedWith
  rw [findNotice_only]
  by_cases h : p noticeNo = true
  · simp only [h, if_true]
    rfl
  · simp [h]

theorem knownHistory_only (noticeNo : String) :
    knownHistory (source.only p) noticeNo = if p noticeNo then knownHistory source noticeNo else none := by
  unfold knownHistory
  rw [findNotice_only]
  by_cases h : p noticeNo = true
  · simp [h]
  · simp [h]

theorem admittedNotice_none (package : Record) : admittedNotice none package = linkedNotice package := by
  unfold admittedNotice
  cases linkedNotice package <;> rfl

theorem enrichedUnder_none : enrichedUnder (source.only (answered source run)) none = withNotice source run := by
  funext package
  unfold enrichedUnder withNotice
  rw [admittedNotice_none]
  cases linkedNotice package with
  | none => rfl
  | some noticeNo => exact enrichedWith_only source _ noticeNo package

theorem isLookable_of_answered (h : answered source run noticeNo = true)
    (hpackages : packages ∈ revisions) (hpackage : package ∈ packages)
    (hlinked : linkedNotice package = some noticeNo) : isLookable source noticeNo package = true := by
  unfold answered at h
  rw [Bool.and_eq_true, Bool.and_eq_true, all_eq_true] at h
  have hall := all_eq_true.mp (h.2 packages hpackages) package hpackage
  simpa [hlinked] using hall

theorem sequential_eq : enrichRevisions (source.only (answered source run)) none revisions .empty =
    .ok (revisions.map (List.map (withNotice source run)),
      revisions.flatten.foldl (rememberedUnder (source.only (answered source run)) none) .empty) := by
  apply (enrichRevisions_ok_iff _ _ _ _ _).mpr
  rw [enrichedUnder_none]
  refine ⟨fun packages hpackages package hpackage noticeNo hadmitted => ?_, rfl⟩
  rw [admittedNotice_none] at hadmitted
  rw [isLookable_only]
  cases hanswered : answered source run noticeNo with
  | false => rfl
  | true => exact isLookable_of_answered source run hanswered hpackages hpackage hadmitted

theorem answered_finished (h : answered source run noticeNo = true) : noticeNo ∈ run.reported ++ run.unreported := by
  unfold answered at h
  rw [Bool.and_eq_true, Bool.and_eq_true] at h
  exact of_decide_eq_true h.1.1

theorem get?_sequential (noticeNo : String) :
    (revisions.flatten.foldl (rememberedUnder (source.only (answered source run)) none) .empty : History).get? noticeNo =
      if answered source run noticeNo then knownHistory source noticeNo else none := by
  rw [get?_foldl_rememberedUnder, knownHistory_only]
  simp only [admittedNotice_none, Dict.get?_empty, or_none]
  cases hanswered : answered source run noticeNo with
  | false => simp
  | true =>
    have hlinked : ∃ package ∈ revisions.flatten, linkedNotice package = some noticeNo := by
      obtain ⟨packages, hpackages, package, hpackage, h⟩ :=
        (mem_linkedNotices noticeNo).mp (finished_linked run (answered_finished source run hanswered))
      exact ⟨package, mem_flatten.mpr ⟨packages, hpackages, hpackage⟩, h⟩
    rw [if_pos hlinked]

/-! ## What the workers leave -/

def answeredNotices : List String := run.reported.filter (answered source run)

theorem filterMap_eq_map_filter {α β : Type} {f : α → Option β} {p : α → Bool} {g : α → β} {l : List α}
    (h : ∀ a ∈ l, f a = if p a then some (g a) else none) : l.filterMap f = (l.filter p).map g := by
  induction l with
  | nil => rfl
  | cons a l ih =>
    have hrest := ih fun b hb => h b (mem_cons_of_mem a hb)
    rw [filterMap_cons, h a mem_cons_self, hrest, filter_cons]
    split_ifs <;> rfl

theorem enrichOne_of_answered (h : noticeNo ∈ run.reported ++ run.unreported) : (answered source run noticeNo = true →
      enrichOne source run noticeNo = .ok (revisions.map (List.map (childOf source noticeNo)),
        revisions.flatten.foldl (rememberedUnder source (some noticeNo)) .empty)) ∧
    (answered source run noticeNo = false → ∃ error, enrichOne source run noticeNo = .error error) := by
  have hiff := enrichOne_ok_iff source run (finished_linked run h)
  have hanswered : answered source run noticeNo = true ↔
      (run.tooLong noticeNo).isNone = true ∧
        (revisions.all fun packages => packages.all fun package =>
          linkedNotice package ≠ some noticeNo || isLookable source noticeNo package) = true := by
    unfold answered
    rw [Bool.and_assoc, decide_eq_true h, Bool.true_and, Bool.and_eq_true]
  constructor
  · intro hyes
    exact (hiff _).mpr ⟨hanswered.mp hyes, rfl⟩
  · intro hno
    cases hone : enrichOne source run noticeNo with
    | error error => exact ⟨error, rfl⟩
    | ok result =>
      have hyes := hanswered.mpr ((hiff result).mp hone).1
      rw [hno] at hyes
      cases hyes

theorem completed_eq : completed source run = (answeredNotices source run).map fun noticeNo =>
    (noticeNo, revisions.map (List.map (childOf source noticeNo)),
      revisions.flatten.foldl (rememberedUnder source (some noticeNo)) .empty) := by
  apply filterMap_eq_map_filter
  intro noticeNo hreported
  have hone := enrichOne_of_answered source run (mem_append_left run.unreported hreported)
  cases hanswered : answered source run noticeNo with
  | true =>
    rw [hone.1 hanswered]
    rfl
  | false =>
    obtain ⟨error, herror⟩ := hone.2 hanswered
    rw [herror]
    rfl

theorem mergeRevision_eq (noticeNo : String) (targets children : List Record) : mergeRevision noticeNo targets children =
    (children.filter fun child => noticeNumber child = noticeNo).foldl (replaceLast packageKey) targets :=
  foldl_set_lastIndex (fun child => noticeNumber child = noticeNo) targets children

theorem noticeNumber_childOf (noticeNo : String) (package : Record) :
    noticeNumber (childOf source noticeNo package) = noticeNo ↔ noticeNumber package = noticeNo := by
  unfold childOf
  by_cases h : linkedNotice package = some noticeNo
  · have hnumber := (linkedNotice_eq_some h).1
    rw [if_pos h]
    exact iff_of_true (noticeNumber_enrichedWith source hnumber) hnumber
  · rw [if_neg h]

theorem childOf_eq_withNotice (h : answered source run noticeNo = true)
    (hnumber : noticeNumber package = noticeNo) : childOf source noticeNo package = withNotice source run package := by
  unfold childOf withNotice
  cases hlinked : linkedNotice package with
  | none => rfl
  | some linked =>
    have hsame : linked = noticeNo := (linkedNotice_eq_some hlinked).1.symm.trans hnumber
    rw [hsame, if_pos rfl]
    exact (if_pos h).symm

theorem filter_childOf (h : answered source run noticeNo = true) (packages : List Record) :
    ((packages.map (childOf source noticeNo)).filter fun child => noticeNumber child = noticeNo) =
      (packages.filter fun package => noticeNumber package = noticeNo).map (withNotice source run) := by
  rw [filter_map]
  have hnames : ((fun child => decide (noticeNumber child = noticeNo)) ∘ childOf source noticeNo) =
      fun package => decide (noticeNumber package = noticeNo) := by
    funext package
    simp only [Function.comp_apply, noticeNumber_childOf]
  rw [hnames]
  apply map_congr_left
  intro package hpackage
  rw [mem_filter, decide_eq_true_eq] at hpackage
  exact childOf_eq_withNotice source run h hpackage.2

theorem bounded_revisions : (enrichLinkedNoticesBounded source run).revisions = revisions.map fun packages =>
    ((writers source run packages).map (withNotice source run)).foldl (replaceLast packageKey) packages := by
  have hloop : ∀ (names : List String) (f : List Record → List Record),
      (∀ noticeNo ∈ names, answered source run noticeNo = true) → names.foldl (fun targets noticeNo =>
        List.zipWith (mergeRevision noticeNo) targets (revisions.map (List.map (childOf source noticeNo))))
        (revisions.map f) =
      revisions.map fun packages =>
        (names.flatMap fun noticeNo =>
          (packages.filter fun package => noticeNumber package = noticeNo).map (withNotice source run)).foldl
          (replaceLast packageKey) (f packages) := by
    intro names
    induction names with
    | nil => intro f _; rfl
    | cons noticeNo names ih =>
      intro f hnames
      rw [forall_mem_cons] at hnames
      rw [foldl_cons, zipWith_map, zipWith_self]
      simp only [mergeRevision_eq, filter_childOf source run hnames.1]
      rw [ih _ hnames.2]
      simp only [flatMap_cons, foldl_append]
  have hanswered : ∀ noticeNo ∈ answeredNotices source run, answered source run noticeNo = true :=
    fun noticeNo h => (mem_filter.mp h).2
  have hmain := hloop (answeredNotices source run) id hanswered
  rw [map_id] at hmain
  show (completed source run).foldl _ revisions = _
  rw [completed_eq, foldl_map, hmain]
  simp only [writers, map_flatMap, id]
  rfl

theorem packageKey_withNotice (package : Record) : packageKey (withNotice source run package) = packageKey package := by
  unfold withNotice
  split
  · split_ifs
    · exact packageKey_enrichedWith source _ package
    · rfl
  · rfl

theorem getElem?_overwritten (packages : List Record) (i : ℕ) :
    (((writers source run packages).map (withNotice source run)).foldl (replaceLast packageKey) packages)[i]? =
      packages[i]?.map fun package =>
        if lastIndex (packageKey package) (packages.map packageKey) = some i then
          ((lastWriter source run packages package).map (withNotice source run)).getD package
        else package := by
  rw [getElem?_foldl_replaceLast]
  have hfind : ∀ package, (((writers source run packages).map (withNotice source run)).reverse.find? fun other =>
      packageKey other = packageKey package) = (lastWriter source run packages package).map (withNotice source run) := by
    intro package
    rw [← map_reverse, find?_map]
    unfold lastWriter
    simp only [Function.comp_def, packageKey_withNotice]
  simp only [hfind]

section

variable (hfree : ∀ noticeNo ∈ run.unreported, findNotice source noticeNo = .ok none)
include hfree

theorem withNotice_of_lastWriter (hpackage : package ∈ packages)
    (h : lastWriter source run packages package = none) : withNotice source run package = package := by
  unfold withNotice
  cases hlinked : linkedNotice package with
  | none => rfl
  | some noticeNo =>
    show (if answered source run noticeNo then enrichedWith source noticeNo package else package) = package
    cases hanswered : answered source run noticeNo with
    | false => rfl
    | true =>
      rw [if_pos rfl]
      cases mem_append.mp (answered_finished source run hanswered) with
      | inr hunreported =>
        unfold enrichedWith
        rw [hfree noticeNo hunreported]
      | inl hreported =>
        -- the package itself is put back
        have hwriter : package ∈ writers source run packages := by
          apply mem_flatMap.mpr
          refine ⟨noticeNo, mem_filter.mpr ⟨hreported, hanswered⟩, ?_⟩
          rw [mem_filter, decide_eq_true_eq]
          exact ⟨hpackage, (linkedNotice_eq_some hlinked).1⟩
        have hnone := List.find?_eq_none.mp h package (mem_reverse.mpr hwriter)
        exact absurd (decide_eq_true rfl) hnone

theorem overwritten_iff (packages : List Record) :
    ((writers source run packages).map (withNotice source run)).foldl (replaceLast packageKey) packages =
      packages.map (withNotice source run) ↔ KeysApart source run packages := by
  have hposition : ∀ i package, packages[i]? = some package →
      ((((writers source run packages).map (withNotice source run)).foldl (replaceLast packageKey) packages)[i]? =
          (packages.map (withNotice source run))[i]? ↔
        if lastIndex (packageKey package) (packages.map packageKey) = some i then
          ∀ writer, lastWriter source run packages package = some writer →
            withNotice source run writer = withNotice source run package
        else withNotice source run package = package) := by
    intro i package hi
    rw [getElem?_overwritten, getElem?_map, hi, map_some, map_some, some_inj]
    by_cases hlast : lastIndex (packageKey package) (packages.map packageKey) = some i
    · rw [if_pos hlast, if_pos hlast]
      cases hwriter : lastWriter source run packages package with
      | none =>
        have hsame := withNotice_of_lastWriter source run hfree (mem_of_getElem? hi) hwriter
        exact iff_of_true hsame.symm fun _ h => absurd h.symm (some_ne_none _)
      | some writer => exact ⟨fun h _ hsame => some.inj hsame ▸ h, fun h => h writer rfl⟩
    · rw [if_neg hlast, if_neg hlast]
      exact eq_comm
  constructor
  · intro h i package hi
    exact (hposition i package hi).mp (congrArg (·[i]?) h)
  · intro h
    apply ext_getElem?
    intro i
    cases hi : packages[i]? with
    | none => rw [getElem?_overwritten, getElem?_map, hi, map_none, map_none]
    | some package => exact (hposition i package hi).mpr (h i package hi)

end

/-! ## Histories and failures -/

theorem get?_childHistory (h : noticeNo ∈ linkedNotices revisions) (other : String) :
    (revisions.flatten.foldl (rememberedUnder source (some noticeNo)) .empty : History).get? other =
      if other = noticeNo then knownHistory source noticeNo else none := by
  rw [get?_foldl_rememberedUnder]
  simp only [admittedNotice_some h, Dict.get?_empty, or_none, ite_none_right_eq_some, some_inj]
  by_cases hsame : other = noticeNo
  · obtain ⟨packages, hpackages, package, hpackage, hlinked⟩ := (mem_linkedNotices noticeNo).mp h
    have hmem : package ∈ revisions.flatten := mem_flatten.mpr ⟨packages, hpackages, hpackage⟩
    rw [if_pos hsame, if_pos ⟨package, hmem, hlinked, hsame.symm⟩, hsame]
  · rw [if_neg hsame, if_neg]
    rintro ⟨_, -, -, heq⟩
    exact hsame heq.symm

theorem get?_bounded (noticeNo : String) : (enrichLinkedNoticesBounded source run).history.get? noticeNo =
    if noticeNo ∈ answeredNotices source run then knownHistory source noticeNo else none := by
  have hloop : ∀ (names : List String) (history : History), (∀ name ∈ names, name ∈ linkedNotices revisions) →
      (names.foldl (fun history name =>
        history.spread (revisions.flatten.foldl (rememberedUnder source (some name)) .empty)) history).get? noticeNo =
      if noticeNo ∈ names then (knownHistory source noticeNo).or (history.get? noticeNo) else history.get? noticeNo := by
    intro names
    induction names with
    | nil => intro history _; simp
    | cons name names ih =>
      intro history hnames
      rw [forall_mem_cons] at hnames
      rw [foldl_cons, ih _ hnames.2, Dict.get?_spread, get?_childHistory source hnames.1]
      by_cases hname : noticeNo = name
      · subst hname
        cases knownHistory source noticeNo <;> simp
      · simp [hname]
  have hlinked : ∀ name ∈ answeredNotices source run, name ∈ linkedNotices revisions := fun name h =>
    finished_linked run (mem_append_left _ (mem_filter.mp h).1)
  have hmain := hloop (answeredNotices source run) .empty hlinked
  rw [Dict.get?_empty, or_none] at hmain
  unfold enrichLinkedNoticesBounded
  dsimp only
  rw [completed_eq, foldl_map]
  exact hmain

theorem failures_eq : (failures source run).map Failure.noticeNo =
    (run.reported.filter fun noticeNo => !answered source run noticeNo) ++
      (linkedNotices revisions).filter fun noticeNo => noticeNo ∉ run.reported ++ run.unreported := by
  have hreported : ∀ names : List String, (∀ name ∈ names, name ∈ run.reported ++ run.unreported) →
      (names.filterMap (failureOf source run)).map Failure.noticeNo =
      names.filter fun noticeNo => !answered source run noticeNo := by
    intro names
    induction names with
    | nil => intro _; rfl
    | cons name names ih =>
      intro hnames
      rw [forall_mem_cons] at hnames
      have hone := enrichOne_of_answered source run hnames.1
      rw [filterMap_cons, filter_cons, ← ih hnames.2]
      unfold failureOf
      cases hanswered : answered source run name with
      | true =>
        rw [hone.1 hanswered]
        rfl
      | false =>
        obtain ⟨error, herror⟩ := hone.2 hanswered
        rw [herror]
        rfl
  unfold failures
  rw [map_append, hreported run.reported fun name h => mem_append_left _ h, map_map]
  congr 1
  exact map_id _

theorem nodup_eraseDups (names : List String) : names.eraseDups.Nodup := by
  induction hlength : names.length using Nat.strong_induction_on generalizing names with
  | _ n ih =>
    cases names with
    | nil => exact nodup_nil
    | cons name names =>
      rw [length_cons] at hlength
      rw [eraseDups_cons, nodup_cons]
      have hle := length_filter_le (fun other => !other == name) names
      refine ⟨?_, ih _ (by omega) _ rfl⟩
      rw [mem_eraseDups, mem_filter]
      simp

theorem nodup_failures : ((failures source run).map Failure.noticeNo).Nodup := by
  rw [failures_eq]
  have hreported : run.reported.Nodup := (nodup_append.mp run.nodup).1
  apply List.Nodup.append (hreported.filter _) ((nodup_eraseDups _).filter _)
  intro noticeNo hfailed hpending
  rw [mem_filter, decide_eq_true_eq] at hpending
  exact hpending.2 (mem_append_left _ (mem_filter.mp hfailed).1)

theorem mem_failures_iff : (∀ noticeNo, noticeNo ∈ (failures source run).map Failure.noticeNo ↔
      noticeNo ∈ linkedNotices revisions ∧ answered source run noticeNo = false) ↔
    ∀ noticeNo ∈ run.unreported, answered source run noticeNo = true := by
  have hmem : ∀ noticeNo, noticeNo ∈ (failures source run).map Failure.noticeNo ↔
      (noticeNo ∈ run.reported ∧ answered source run noticeNo = false) ∨
        noticeNo ∈ linkedNotices revisions ∧ noticeNo ∉ run.reported ++ run.unreported := by
    intro noticeNo
    rw [failures_eq, mem_append, mem_filter, mem_filter, Bool.not_eq_true', decide_eq_true_eq]
  constructor
  · intro h noticeNo hunreported
    have hfinished := mem_append_right run.reported hunreported
    by_contra hnot
    have hfailed := (h noticeNo).mpr ⟨finished_linked run hfinished, Bool.eq_false_iff.mpr hnot⟩
    cases (hmem noticeNo).mp hfailed with
    | inl hreported => exact disjoint_of_nodup_append run.nodup hreported.1 hunreported
    | inr hpending => exact hpending.2 hfinished
  · intro h noticeNo
    rw [hmem noticeNo]
    constructor
    · intro hfailed
      cases hfailed with
      | inl hreported => exact ⟨finished_linked run (mem_append_left _ hreported.1), hreported.2⟩
      | inr hpending =>
        refine ⟨hpending.1, ?_⟩
        by_contra hanswered
        exact hpending.2 (answered_finished source run (Bool.not_eq_false _ ▸ hanswered))
    · intro ⟨hlinked, hanswered⟩
      by_cases hfinished : noticeNo ∈ run.reported ++ run.unreported
      · cases mem_append.mp hfinished with
        | inl hreported => exact .inl ⟨hreported, hanswered⟩
        | inr hunreported =>
          rw [h noticeNo hunreported] at hanswered
          cases hanswered
      · exact .inr ⟨hlinked, hfinished⟩

theorem unreported_iff (h : noticeNo ∈ run.unreported) : (findNotice source noticeNo = .ok none ∧ run.tooLong noticeNo = none) ↔
    answered source run noticeNo = true ∧ knownHistory source noticeNo = none := by
  have hfinished := mem_append_right run.reported h
  constructor
  · intro ⟨hfind, hlong⟩
    have hlookable : ∀ package, isLookable source noticeNo package = true := by
      intro package
      unfold isLookable
      rw [hfind]
    refine ⟨?_, ?_⟩
    · unfold answered
      simp [hlong, hlookable, mem_append.mp hfinished]
    · unfold knownHistory
      rw [hfind]
  · intro ⟨hanswered, hknown⟩
    obtain ⟨packages, hpackages, package, hpackage, hlinked⟩ :=
      (mem_linkedNotices noticeNo).mp (finished_linked run hfinished)
    have hlookable := isLookable_of_answered source run hanswered hpackages hpackage hlinked
    have hlong : run.tooLong noticeNo = none := by
      unfold answered at hanswered
      rw [Bool.and_eq_true, Bool.and_eq_true] at hanswered
      exact isNone_iff_eq_none.mp hanswered.1.2
    unfold isLookable at hlookable
    unfold knownHistory at hknown
    cases hfind : findNotice source noticeNo with
    | error error =>
      rw [hfind] at hlookable
      cases hlookable
    | ok answer =>
      cases answer with
      | none => exact ⟨rfl, hlong⟩
      | some found =>
        rw [hfind] at hknown
        cases hknown

theorem history_iff : (∀ noticeNo, (enrichLinkedNoticesBounded source run).history.get? noticeNo =
      if answered source run noticeNo then knownHistory source noticeNo else none) ↔
    ∀ noticeNo ∈ run.unreported, answered source run noticeNo = true → knownHistory source noticeNo = none := by
  simp only [get?_bounded]
  constructor
  · intro h noticeNo hunreported hanswered
    have hout : noticeNo ∉ answeredNotices source run := fun hmem =>
      disjoint_of_nodup_append run.nodup (mem_filter.mp hmem).1 hunreported
    have hsame := h noticeNo
    rw [if_neg hout, if_pos hanswered] at hsame
    exact hsame.symm
  · intro h noticeNo
    cases hanswered : answered source run noticeNo with
    | false =>
      have hout : noticeNo ∉ answeredNotices source run := by
        intro hmem
        rw [(mem_filter.mp hmem).2] at hanswered
        cases hanswered
      rw [if_neg hout, if_neg Bool.false_ne_true]
    | true =>
      rw [if_pos rfl]
      cases mem_append.mp (answered_finished source run hanswered) with
      | inl hreported => exact if_pos (mem_filter.mpr ⟨hreported, hanswered⟩)
      | inr hunreported =>
        rw [h noticeNo hunreported hanswered]
        exact ite_self none

/-- The workers leave what the pass over the revisions leaves exactly if none of them finishes unreported, unless it finds
nothing in time, and the keys of the packages are apart. -/
theorem matchesSequential_iff : MatchesSequential source run ↔ Undisturbed source run := by
  have hpass : ∀ history : History, enrichRevisions (source.only (succeeds source run)) none revisions .empty =
          .ok ((enrichLinkedNoticesBounded source run).revisions, history) ↔
        (enrichLinkedNoticesBounded source run).revisions = revisions.map (List.map (withNotice source run)) ∧
          history = revisions.flatten.foldl (rememberedUnder (source.only (answered source run)) none) .empty := by
    intro history
    rw [succeeds_eq_answered, sequential_eq, Except.ok.injEq, Prod.mk.injEq]
    exact and_congr eq_comm eq_comm
  have hrevisions : (∀ noticeNo ∈ run.unreported, findNotice source noticeNo = .ok none) →
      ((enrichLinkedNoticesBounded source run).revisions = revisions.map (List.map (withNotice source run)) ↔
        ∀ packages ∈ revisions, KeysApart source run packages) := by
    intro hfree
    rw [bounded_revisions, map_inj_left]
    exact forall₂_congr fun packages _ => overwritten_iff source run hfree packages
  constructor
  · intro h
    obtain ⟨history, hrun, hhistory⟩ := h.sequential
    obtain ⟨hsame, rfl⟩ := (hpass history).mp hrun
    simp only [get?_sequential] at hhistory
    have hanswered : ∀ noticeNo ∈ run.unreported, answered source run noticeNo = true := by
      apply (mem_failures_iff source run).mp
      rw [← succeeds_eq_answered]
      exact h.failed
    have hunreported : ∀ noticeNo ∈ run.unreported, findNotice source noticeNo = .ok none ∧ run.tooLong noticeNo = none :=
      fun noticeNo hmem => (unreported_iff source run hmem).mpr
        ⟨hanswered noticeNo hmem, (history_iff source run).mp hhistory noticeNo hmem (hanswered noticeNo hmem)⟩
    exact ⟨hunreported, (hrevisions fun noticeNo hmem => (hunreported noticeNo hmem).1).mp hsame⟩
  · intro h
    have hanswered : ∀ noticeNo ∈ run.unreported, answered source run noticeNo = true ∧ knownHistory source noticeNo = none :=
      fun noticeNo hmem => (unreported_iff source run hmem).mp (h.unreported noticeNo hmem)
    refine ⟨⟨_, (hpass _).mpr ⟨?_, rfl⟩, ?_⟩, nodup_failures source run, ?_⟩
    · exact (hrevisions fun noticeNo hmem => (h.unreported noticeNo hmem).1).mpr h.apart
    · simp only [get?_sequential]
      exact (history_iff source run).mpr fun noticeNo hmem _ => (hanswered noticeNo hmem).2
    · rw [succeeds_eq_answered]
      exact (mem_failures_iff source run).mpr fun noticeNo hmem => (hanswered noticeNo hmem).1

def IsKeyed (package : Record) : Prop :=
  isTruthy (valueOf package "planDetailRevisionId") = true ∨ isTruthy (valueOf package "stablePackageId") = true ∨
    isTruthy (valueOf package "symbol") = true

def sampleRevision : Record := .ofList [("revisionId", .str "R1"), ("revisionNumber", .str "00")]

def samplePackage : Record :=
  .ofList [("symbol", .str "A"), ("noticeLink", .obj [("state", .str "LINKED"), ("noticeNo", .str "IB1")])]

def sampleSibling : Record := .ofList [("symbol", .str "A"), ("noticeLink", .obj [("state", .str "UNLINKED")])]

def sampleSource : Source String where
  casefold := id
  lookupCompleteBundle := fun noticeNo => .ok (if noticeNo = "IB1" then some [sampleRevision] else none)
  listNoticeRevisions := fun _ => .ok []
  getNoticeRevision := fun _ _ => .ok none
  revisionInvalid := "PROCUREMENT_REVISION_INVALID"

theorem sample_nodup : (["IB1"] ++ [] : List String).Nodup := by decide

theorem sample_known :
    ∀ noticeNo ∈ (["IB1"] ++ [] : List String), noticeNo ∈ linkedNotices [[samplePackage, sampleSibling]] := by
  intro noticeNo hmem
  rw [append_nil, mem_singleton] at hmem
  rw [hmem]
  apply (mem_linkedNotices "IB1").mpr
  exact ⟨[samplePackage, sampleSibling], by simp, samplePackage, by simp, by decide +kernel⟩

def sampleRun : Run String [[samplePackage, sampleSibling]] where
  reported := ["IB1"]
  unreported := []
  tooLong := fun _ => none
  nodup := sample_nodup
  known := sample_known

theorem findNotice_sample : findNotice sampleSource "IB1" = .ok (some ⟨[sampleRevision], [("00", sampleRevision)]⟩) := by
  have hnumber : pyStr (valueOf sampleRevision "revisionNumber") = "00" := by decide +kernel
  unfold findNotice sampleSource
  simp [bind, Except.bind, pure, Except.pure, hnumber]

theorem answered_sample : answered sampleSource sampleRun "IB1" = true := by
  have hlookable : ∀ package, desiredVersion package = "" → isLookable sampleSource "IB1" package = true := by
    intro package h
    unfold isLookable
    rw [findNotice_sample, h]
    rfl
  have hfirst : isLookable sampleSource "IB1" samplePackage = true := hlookable samplePackage (by decide +kernel)
  have hsecond : isLookable sampleSource "IB1" sampleSibling = true := hlookable sampleSibling (by decide +kernel)
  unfold answered
  simp [hfirst, hsecond, sampleRun]

/-- The first of two packages of one symbol is not enriched. -/
theorem sharedSymbol_not_matches : ¬∀ (source : Source String) (revisions : List (List Record)) (run : Run String revisions),
    (∀ packages ∈ revisions, ∀ package ∈ packages, IsKeyed package) → MatchesSequential source run := by
  intro h
  have hkeyed : ∀ packages ∈ [[samplePackage, sampleSibling]], ∀ package ∈ packages, IsKeyed package := by
    simp only [mem_singleton, forall_eq, forall_mem_cons]
    exact ⟨.inr (.inr (by decide +kernel)), .inr (.inr (by decide +kernel))⟩
  obtain ⟨history, hrun, -⟩ := (h sampleSource _ sampleRun hkeyed).sequential
  rw [succeeds_eq_answered, sequential_eq, Except.ok.injEq, Prod.mk.injEq, bounded_revisions] at hrun
  have hpackages := List.cons.inj hrun.1
  have hfirst := congrArg (fun packages : List Record => packages[0]?) hpackages.1
  dsimp only at hfirst
  rw [getElem?_overwritten] at hfirst
  -- the symbol stands for the second package
  have hlast : lastIndex (packageKey samplePackage) [packageKey samplePackage, packageKey sampleSibling] ≠ some 0 := by
    decide +kernel
  have hlink : linkedNotice samplePackage = some "IB1" := by decide +kernel
  have hdesired : desiredVersion samplePackage = "" := by decide +kernel
  have hkept : withNotice sampleSource sampleRun samplePackage = samplePackage := by simpa [hlast] using hfirst
  have hchanged : withNotice sampleSource sampleRun samplePackage =
      enrichPlanPackage sampleSource samplePackage "IB1" sampleRevision := by
    unfold withNotice enrichedWith
    rw [hlink]
    simp only [answered_sample, if_true, findNotice_sample, hdesired]
    rfl
  rw [hchanged] at hkept
  have hlinks := congrArg (fun package => getIn (valueOf package "noticeLink") "kind") hkept
  revert hlinks
  decide +kernel

end Bidding.Enrichment
