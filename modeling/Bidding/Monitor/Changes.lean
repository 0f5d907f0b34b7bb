import Mathlib.Data.Finset.Card
import Bidding.Foundations.Known

/-!
# New content of a notice

The clarifications and the petitions of a notice are known by the digests of their rows. The first rows of a
category are taken as known; of later ones those that are not known yet are counted.
-/

namespace Bidding.Monitor

open Foundations List

inductive Category where
  | clarification
  | petition
  deriving DecidableEq

def categories : List Category := [.clarification, .petition]

/-- `trang_thai` of a package. -/
inductive PackageStatus where
  | invited
  | opened
  | evaluating
  | partiallyAwarded
  | awarded
  | other
  deriving DecidableEq

/-- A package as the monitor selects it: the latest version, with an active plan and an active organisation. The day
of the result is counted from the epoch, where it is a date. -/
structure Package where
  organizationId : String
  id : String
  idGoc : String
  maGoiThau : String
  trangThai : PackageStatus
  ngayQuyetDinhKetQua : Option ℤ
  deriving DecidableEq

/-- `strip().upper()` of Python, `upper(trim())` of the database, and the digits of Python. -/
structure NoticeTexts where
  stripUpper : String → String
  upperTrim : String → String
  decimal : Char → Bool

def noticeMatch (digit : Char → Bool) (text : List Char) : Bool :=
  text.take 2 == ['I', 'B'] && ((text.drop 2).take 10).all digit &&
    (text.length == 12 || (text.length == 15 && (text.drop 12).take 1 == ['-'] && (text.drop 13).all digit))

def noticeCode (t : NoticeTexts) (value : String) : Option String :=
  let text := (t.stripUpper value).toList
  if noticeMatch t.decimal text then some (String.ofList (text.take 12)) else none

def vietnamOffset : ℕ := 25200

def localDay (epoch : ℕ) : ℕ := (epoch + vietnamOffset) / 86400

def onDay (epoch seconds : ℕ) : ℕ := localDay epoch * 86400 + seconds - vietnamOffset

/-- `due_slot(now)`: today at 14:30, or at 8:30. -/
def dueSlot (epoch : ℕ) : Option ℕ :=
  [52200, 30600].findSome? fun seconds => if onDay epoch seconds ≤ epoch then some (onDay epoch seconds) else none

def eligible (t : NoticeTexts) (package : Package) (epoch : ℕ) : Bool :=
  if package.trangThai = .other || (noticeCode t package.maGoiThau).isNone then false
  else if package.trangThai = .awarded then
    match package.ngayQuyetDinhKetQua with
    | some day => decide ((localDay epoch : ℤ) - day ≤ 10)
    | none => true
  else true

abbrev Baselines := Category → Option (Finset String)

/-- What is known afterwards, how many rows of which category are new, and which categories have failed. -/
structure Changes where
  updated : Baselines
  counts : List (Category × ℕ)
  failures : List Category

section Changes

variable {ρ : Type} (digest : ρ → String)

def digests (rows : List ρ) : Finset String := (rows.map digest).toFinset

def changes (previous : Baselines) (observed : List (Category × Option (List ρ))) : Changes :=
  observed.foldl (fun state entry =>
    match entry.2 with
    | none => { state with failures := state.failures ++ [entry.1] }
    | some rows =>
      let hashes := digests digest rows
      let old := previous entry.1
      let seen := old.getD ∅
      { state with
        updated := Function.update state.updated entry.1 (some (seen ∪ hashes))
        counts :=
          if old.isSome && decide (hashes \ seen ≠ ∅) then state.counts ++ [(entry.1, (hashes \ seen).card)]
          else state.counts })
    ⟨previous, [], []⟩

def newDigests (previous : Baselines) (observed : List (Category × Option (List ρ))) (category : Category) : Finset String :=
  match previous category, observed.lookup category with
  | some known, some (some rows) => digests digest rows \ known
  | _, _ => ∅

variable {digest} {previous : Baselines} {observed : List (Category × Option (List ρ))} {category : Category}
  {known : Finset String}

variable (entry : Category × Option (List ρ))

theorem changes_append : changes digest previous (observed ++ [entry]) = match entry.2 with
    | none => { changes digest previous observed with
        failures := (changes digest previous observed).failures ++ [entry.1] }
      | some rows => { changes digest previous observed with
          updated := Function.update (changes digest previous observed).updated entry.1
            (some ((previous entry.1).getD ∅ ∪ digests digest rows))
          counts :=
            if (previous entry.1).isSome && decide (digests digest rows \ (previous entry.1).getD ∅ ≠ ∅) then
              (changes digest previous observed).counts ++ [(entry.1, (digests digest rows \ (previous entry.1).getD ∅).card)]
            else (changes digest previous observed).counts } := by
  unfold changes
  rw [foldl_append, foldl_cons, foldl_nil]

theorem updated_of_not_observed (h : category ∉ observed.map Prod.fst) :
    (changes digest previous observed).updated category = previous category := by
  induction observed using List.reverseRecOn with
  | nil => rfl
  | append_singleton observed entry ih =>
    rw [map_append, mem_append, not_or] at h
    have hne : category ≠ entry.1 := fun heq => h.2 (by rw [heq]; exact mem_cons_self)
    rw [changes_append]
    cases entry.2 with
    | none => exact ih h.1
    | some rows =>
      dsimp only
      rw [Function.update_of_ne hne]
      exact ih h.1

theorem newDigests_of_not_observed (h : category ∉ observed.map Prod.fst) :
    newDigests digest previous observed category = ∅ := by
  have hlookup : observed.lookup category = none := by
    rw [List.lookup_eq_none_iff]
    intro entry hentry
    rw [bne_iff_ne]
    exact fun heq => h (heq ▸ mem_map_of_mem hentry)
  unfold newDigests
  rw [hlookup]
  cases previous category with
  | none => rfl
  | some known => rfl

theorem newDigests_append (hfresh : entry.1 ∉ observed.map Prod.fst)
    (category : Category) : newDigests digest previous (observed ++ [entry]) category =
      if category = entry.1 then newDigests digest previous [entry] category
      else newDigests digest previous observed category := by
  unfold newDigests
  rw [lookup_append]
  split_ifs with heq
  · have hlookup : observed.lookup category = none := by
      rw [List.lookup_eq_none_iff]
      intro other hother
      rw [bne_iff_ne, heq]
      exact fun hsame => hfresh (hsame ▸ mem_map_of_mem hother)
    rw [hlookup, Option.none_or]
  · have hlookup : [entry].lookup category = none := by
      rw [List.lookup_eq_none_iff]
      intro other hother
      rw [bne_iff_ne, mem_singleton.mp hother]
      exact heq
    rw [hlookup, Option.or_none]

theorem newDigests_of_none (h : previous category = none) : newDigests digest previous observed category = ∅ := by
  unfold newDigests
  rw [h]

section

variable (hnodup : (observed.map Prod.fst).Nodup)
include hnodup

theorem updated_of_some (h : previous category = some known) : (changes digest previous observed).updated category =
    some (known ∪ newDigests digest previous observed category) := by
  induction observed using List.reverseRecOn with
  | nil =>
    have hnone : newDigests digest previous [] category = ∅ := newDigests_of_not_observed not_mem_nil
    rw [hnone, Finset.union_empty]
    exact h
  | append_singleton observed entry ih =>
    rw [map_append, nodup_append] at hnodup
    obtain ⟨hbefore, -, hapart⟩ := hnodup
    have hfresh : entry.1 ∉ observed.map Prod.fst := fun hmem => hapart _ hmem _ mem_cons_self rfl
    rw [newDigests_append entry hfresh, changes_append]
    by_cases heq : category = entry.1
    · subst heq
      rw [if_pos rfl]
      unfold newDigests
      rw [h, lookup_cons_self]
      cases entry.2 with
      | none =>
        dsimp only
        rw [updated_of_not_observed hfresh, Finset.union_empty]
        exact h
      | some rows =>
        dsimp only
        rw [Function.update_self, Option.getD_some, Finset.union_sdiff_self_eq_union]
    · rw [if_neg heq, ← ih hbefore]
      cases entry.2 with
      | none => rfl
      | some rows => exact Function.update_of_ne heq _ _

theorem counts_eq : (changes digest previous observed).counts =
    ((observed.map Prod.fst).filter fun c => newDigests digest previous observed c ≠ ∅).map fun c =>
      (c, (newDigests digest previous observed c).card) := by
  induction observed using List.reverseRecOn with
  | nil => rfl
  | append_singleton observed entry ih =>
    rw [map_append, nodup_append] at hnodup
    obtain ⟨hbefore, -, hapart⟩ := hnodup
    have hfresh : entry.1 ∉ observed.map Prod.fst := fun hmem => hapart _ hmem _ mem_cons_self rfl
    have hother {c : Category} (hc : c ∈ observed.map Prod.fst) :
        newDigests digest previous (observed ++ [entry]) c = newDigests digest previous observed c := by
      rw [newDigests_append entry hfresh, if_neg fun heq : c = entry.1 => hfresh (heq ▸ hc)]
    have hkept : ((observed.map Prod.fst).filter fun c => newDigests digest previous (observed ++ [entry]) c ≠ ∅).map
        (fun c => (c, (newDigests digest previous (observed ++ [entry]) c).card)) =
          (changes digest previous observed).counts := by
      rw [ih hbefore, filter_congr fun c hc => by rw [hother hc]]
      apply map_congr_left
      intro c hc
      rw [hother (mem_filter.mp hc).1]
    have hlast : newDigests digest previous (observed ++ [entry]) entry.1 = newDigests digest previous [entry] entry.1 := by
      rw [newDigests_append entry hfresh, if_pos rfl]
    have hentry : newDigests digest previous [entry] entry.1 =
        ((previous entry.1).bind fun known => entry.2.map fun rows => digests digest rows \ known).getD ∅ := by
      unfold newDigests
      rw [lookup_cons_self]
      cases previous entry.1 <;> cases entry.2 <;> rfl
    have hnext : ([entry.1].filter fun c => newDigests digest previous (observed ++ [entry]) c ≠ ∅).map
        (fun c => (c, (newDigests digest previous (observed ++ [entry]) c).card)) =
          if newDigests digest previous [entry] entry.1 ≠ ∅ then
            [(entry.1, (newDigests digest previous [entry] entry.1).card)] else [] := by
      rw [filter_singleton, hlast]
      split_ifs <;> simp_all
    rw [map_append, filter_append, map_append, hkept, map_singleton, hnext, changes_append, hentry]
    cases entry.2 with
    | none => cases previous entry.1 <;> simp
    | some rows =>
      cases previous entry.1 with
      | none => simp
      | some known => by_cases hnew : digests digest rows \ known = ∅ <;> simp [hnew]

theorem updated_of_no_counts
    (h : (changes digest previous observed).counts = []) : ∀ c, newDigests digest previous observed c = ∅ := by
  intro c
  by_cases hc : c ∈ observed.map Prod.fst
  · rw [counts_eq hnodup, map_eq_nil_iff, filter_eq_nil_iff] at h
    simpa using h c hc
  · exact newDigests_of_not_observed hc

end

theorem disjoint_newDigests (h : previous category = some known) :
    Disjoint known (newDigests digest previous observed category) := by
  unfold newDigests
  rw [h]
  cases observed.lookup category with
  | none => exact Finset.disjoint_empty_right known
  | some rows =>
    cases rows with
    | none => exact Finset.disjoint_empty_right known
    | some rows => exact Finset.disjoint_sdiff

theorem grows_changes (hnodup : (observed.map Prod.fst).Nodup) (category : Category) :
    Grows (previous category) ((changes digest previous observed).updated category)
      (newDigests digest previous observed category) where
  silent := newDigests_of_none
  grown _ h := updated_of_some hnodup h
  fresh _ h := disjoint_newDigests h

end Changes

end Bidding.Monitor
