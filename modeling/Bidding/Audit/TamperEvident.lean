import Bidding.Audit.Log
import Bidding.Foundations.HashChain

/-!
# Tamper evidence of the audit log

The check reports a log valid exactly where the rows of every chain are linked and end at the stored
head, or the stored head is the empty one. A stored head that is not empty fixes the rows of its
chain; an empty one fixes nothing.
-/

namespace Bidding.Audit

open Foundations List

variable {sha256 : String → String} {collation : Collation} {e e' : AuditEvent}

theorem canonicalEvent_inj (h : canonicalEvent e = canonicalEvent e') : e = e' := by
  unfold canonicalEvent at h
  obtain ⟨haction, h⟩ := jsonString_inj (append_cancel_left (List.cons.inj h).2)
  obtain ⟨hactor, h⟩ := jsonOptional_inj (append_cancel_left (List.cons.inj h).2)
  obtain ⟨hchain, h⟩ := jsonString_inj (append_cancel_left (List.cons.inj h).2)
  obtain ⟨hcreated, h⟩ := jsonString_inj (append_cancel_left (List.cons.inj h).2)
  obtain ⟨hip, h⟩ := jsonOptional_inj (append_cancel_left (List.cons.inj h).2)
  obtain ⟨hmetadata, h⟩ := jsonOptional_inj (append_cancel_left (List.cons.inj h).2)
  obtain ⟨horganization, h⟩ := jsonOptional_inj (append_cancel_left (List.cons.inj h).2)
  obtain ⟨hsequence, h⟩ := append_sep_inj (jsonInt_no_sep _) (jsonInt_no_sep _) (append_cancel_left (List.cons.inj h).2)
  obtain ⟨htarget, h⟩ := jsonOptional_inj (append_cancel_left h)
  obtain ⟨htype, -⟩ := jsonOptional_inj (append_cancel_left (List.cons.inj h).2)
  have hnumber := jsonInt_inj hsequence
  cases e
  cases e'
  simp_all

theorem canonicalEvent_no_newline (e : AuditEvent) : '\n' ∉ canonicalEvent e := by
  have hbrace : '\n' ≠ '{' := by decide
  have hcomma : '\n' ≠ ',' := by decide
  have hclose : '\n' ≠ '}' := by decide
  simp only [canonicalEvent, mem_cons, mem_append, not_mem_nil, or_false,
    jsonKey_no_newline, jsonString_no_newline, jsonOptional_no_newline, jsonInt_no_newline, hbrace, hcomma,
    hclose, not_false_eq_true]

theorem entryPayload_inj {p p' : String} (h : entryPayload p e = entryPayload p' e') : p = p' ∧ e = e' := by
  have hlist : p.toList ++ '\n' :: canonicalEvent e = p'.toList ++ '\n' :: canonicalEvent e' := by
    have htexts := congrArg String.toList h
    rwa [entryPayload, entryPayload, String.toList_ofList, String.toList_ofList] at htexts
  have hreverse : (canonicalEvent e).reverse ++ '\n' :: p.toList.reverse =
      (canonicalEvent e').reverse ++ '\n' :: p'.toList.reverse := by
    simpa using congrArg List.reverse hlist
  obtain ⟨hevent, hprevious⟩ := append_sep_inj (fun hm => canonicalEvent_no_newline e (mem_reverse.mp hm))
    (fun hm => canonicalEvent_no_newline e' (mem_reverse.mp hm)) hreverse
  exact ⟨String.toList_inj.mp (reverse_inj.mp hprevious), canonicalEvent_inj (reverse_inj.mp hevent)⟩

def auditScheme (sha256 : String → String) : ChainScheme AuditRow String AuditEvent where
  seq := fun r => r.event.sequence
  previous := AuditRow.previousHash
  own := AuditRow.entryHash
  digest := fun r => entryHash sha256 r.previousHash r.event
  content := AuditRow.event

def Linked (sha256 : String → String) (rows : List AuditRow) : Prop :=
  (auditScheme sha256).Linked emptyAuditHash 0 rows

def ofChain (chainId : String) (rows : List AuditRow) : List AuditRow :=
  rows.filter fun r => r.event.chainId = chainId

def chainRows (collation : Collation) (log : List AuditRow) (chainId : String) : List AuditRow :=
  ofChain chainId (log.insertionSort fun a b => a.rank collation ≤ b.rank collation)

variable (rows : List AuditRow) {chainId : String} {stored : ChainHeads} {s : AuditTables}

def headOf : Option ChainHead :=
  rows.getLast?.map fun r => ⟨r.event.sequence, some r.id, r.entryHash⟩

theorem ofChain_append (chainId : String) (a b : List AuditRow) :
    ofChain chainId (a ++ b) = ofChain chainId a ++ ofChain chainId b := filter_append _ _

theorem ofChain_singleton {r : AuditRow} (h : r.event.chainId = chainId) : ofChain chainId [r] = [r] := by simp [ofChain, h]

theorem ofChain_singleton_of_ne {r : AuditRow} (h : r.event.chainId ≠ chainId) : ofChain chainId [r] = [] := by
  simp [ofChain, h]

theorem mem_ofChain {rows : List AuditRow} {r : AuditRow} :
    r ∈ ofChain chainId rows ↔ r ∈ rows ∧ r.event.chainId = chainId := by
  simp [ofChain]

theorem sorted_rows (collation : Collation) (log : List AuditRow) :
    (log.insertionSort fun a b => a.rank collation ≤ b.rank collation).Pairwise fun a b =>
      a.rank collation ≤ b.rank collation :=
  pairwise_insertionSort (fun a b : AuditRow => a.rank collation ≤ b.rank collation) log

theorem rank_chain_le {a b : AuditRow} (h : a.rank collation ≤ b.rank collation) :
    (show Collated collation from a.event.chainId) ≤ (show Collated collation from b.event.chainId) := by
  rcases Prod.Lex.le_iff.mp h with hlt | ⟨heq, -⟩
  · exact le_of_lt hlt
  · exact le_of_eq heq

theorem chainRows_pairwise (log : List AuditRow) (chainId : String) :
    (chainRows collation log chainId).Pairwise fun a b => a.event.sequence ≤ b.event.sequence := by
  have hsorted := (sorted_rows collation log).filter fun r => r.event.chainId = chainId
  refine List.Pairwise.imp_of_mem (fun {a b} ha hb hab => ?_) hsorted
  have hchain : a.event.chainId = b.event.chainId :=
    (mem_ofChain.mp ha).2.trans (mem_ofChain.mp hb).2.symm
  rcases Prod.Lex.le_iff.mp hab with hlt | ⟨-, hle⟩
  · exact absurd (show (show Collated collation from a.event.chainId) =
      (show Collated collation from b.event.chainId) from hchain) (ne_of_lt hlt)
  · exact hle

theorem chainRows_perm (log : List AuditRow) (chainId : String) :
    (chainRows collation log chainId).Perm (ofChain chainId log) :=
  (perm_insertionSort (fun a b : AuditRow => a.rank collation ≤ b.rank collation) log).filter _

theorem chainRows_eq {log rows : List AuditRow} (hlinked : Linked sha256 rows)
    (hperm : (ofChain chainId log).Perm rows) : chainRows collation log chainId = rows :=
  ChainScheme.Linked.eq_of_perm hlinked ((chainRows_perm log chainId).trans hperm) (chainRows_pairwise log chainId)

/-! ## The loop -/

/-- What the loop knows after the rows `P`: every chain is linked so far, the heads are the ends of the
chains, one for each, and it is in the chain of the last row. -/
structure WalkInv (sha256 : String → String) (P : List AuditRow) (w : Walk) : Prop where
  linked : ∀ c, Linked sha256 (ofChain c P)
  heads : ∀ h ∈ w.finish, headOf (ofChain h.chainId P) = some ⟨h.sequence, h.id, h.entryHash⟩
  covered : ∀ r ∈ P, r.event.chainId ∈ w.finish.map HeadSummary.chainId
  distinct : (w.finish.map HeadSummary.chainId).Nodup
  current : w.currentChain.map HeadSummary.chainId = P.getLast?.map fun r => r.event.chainId

theorem walkInv_start : WalkInv sha256 [] .start where
  linked := fun _ => trivial
  heads := by simp [Walk.start, Walk.finish]
  covered := by simp
  distinct := by simp [Walk.start, Walk.finish]
  current := rfl

theorem headOf_eq_none {rows : List AuditRow} : headOf rows = none ↔ rows = [] := by simp [headOf]

theorem headOf_concat (r : AuditRow) : headOf (rows ++ [r]) = some ⟨r.event.sequence, some r.id, r.entryHash⟩ := by
  simp [headOf]

theorem lastOf_eq : (auditScheme sha256).lastOf emptyAuditHash 0 rows =
    (((headOf rows).getD emptyHead).lastHash, ((headOf rows).getD emptyHead).lastSequence) := by
  unfold ChainScheme.lastOf headOf
  cases rows.getLast? <;> rfl

theorem linked_concat {rows : List AuditRow} {r : AuditRow} : Linked sha256 (rows ++ [r]) ↔ Linked sha256 rows ∧
    r.event.sequence = ((headOf rows).getD emptyHead).lastSequence + 1 ∧
    r.previousHash = ((headOf rows).getD emptyHead).lastHash ∧
    entryHash sha256 r.previousHash r.event = r.entryHash := by
  unfold Linked
  rw [ChainScheme.linked_concat, lastOf_eq]
  rfl

variable {P : List AuditRow} {w : Walk} {n : ℕ}

theorem ofChain_eq_nil {r : AuditRow} (hsorted : (P ++ [r]).Pairwise fun a b => a.rank collation ≤ b.rank collation)
    (hother : ∀ a ∈ P.getLast?, a.event.chainId ≠ r.event.chainId) : ofChain r.event.chainId P = [] := by
  rw [pairwise_append] at hsorted
  refine filter_eq_nil_iff.mpr fun a ha hchain => ?_
  rw [decide_eq_true_iff] at hchain
  cases hlast : P.getLast? with
  | none => simp [getLast?_eq_none_iff.mp hlast] at ha
  | some l =>
    obtain ⟨front, rfl⟩ := getLast?_eq_some_iff.mp hlast
    have hle := rank_chain_le (hsorted.2.2 l (by simp) r (by simp))
    have hla : (show Collated collation from a.event.chainId) ≤ (show Collated collation from l.event.chainId) := by
      rcases mem_append.mp ha with ha | ha
      · exact rank_chain_le ((pairwise_append.mp hsorted.1).2.2 a ha l (by simp))
      · obtain rfl : a = l := by simpa using ha
        exact le_refl _
    have heq : (show Collated collation from l.event.chainId) = (show Collated collation from r.event.chainId) :=
      le_antisymm hle (by rw [← hchain]; exact hla)
    exact hother l (by simp [hlast]) heq

/-- At a row the loop stands at the end of its chain, beside the heads of the others. -/
theorem WalkInv.enter_spec {r : AuditRow} (h : WalkInv sha256 P w)
    (hsorted : (P ++ [r]).Pairwise fun a b => a.rank collation ≤ b.rank collation) :
    (w.enter r.event.chainId).1.sequence = ((headOf (ofChain r.event.chainId P)).getD emptyHead).lastSequence ∧
      (w.enter r.event.chainId).1.entryHash = ((headOf (ofChain r.event.chainId P)).getD emptyHead).lastHash ∧
      (∀ c, c ≠ r.event.chainId →
        (c ∈ (w.enter r.event.chainId).2.map HeadSummary.chainId ↔ c ∈ w.finish.map HeadSummary.chainId)) ∧
      (∀ x ∈ (w.enter r.event.chainId).2, x ∈ w.finish) ∧
      ((w.enter r.event.chainId).2.map HeadSummary.chainId).Nodup ∧
      r.event.chainId ∉ (w.enter r.event.chainId).2.map HeadSummary.chainId := by
  have hfinish : ∀ current, w.currentChain = some current → w.finish = w.heads ++ [current] := by
    intro current hcurrent
    rw [Walk.finish, hcurrent]
    rfl
  have hdistinct := h.distinct
  cases hw : w.currentChain with
  | none =>
    have hnil : P = [] := by
      have hcurrent := h.current
      rw [hw] at hcurrent
      cases hlast : P.getLast? with
      | none => exact getLast?_eq_none_iff.mp hlast
      | some l => rw [hlast] at hcurrent; cases hcurrent
    subst hnil
    have hheads : w.finish = w.heads := by simp [Walk.finish, hw]
    have hnone : w.heads = [] := by
      refine eq_nil_iff_forall_not_mem.mpr fun x hx => ?_
      have hhead := h.heads x (hheads ▸ hx)
      simp [ofChain, headOf] at hhead
    have henter : w.enter r.event.chainId = (⟨r.event.chainId, 0, none, emptyAuditHash⟩, w.heads) := by
      simp [Walk.enter, hw]
    rw [henter, hheads, hnone]
    exact ⟨rfl, rfl, by simp, by simp, by simp, by simp⟩
  | some current =>
    rw [hfinish current hw] at hdistinct ⊢
    rw [map_append, nodup_append] at hdistinct
    by_cases hsame : current.chainId = r.event.chainId
    · have henter : w.enter r.event.chainId = (current, w.heads) := by simp [Walk.enter, hw, hsame]
      have hhead := h.heads current (by rw [hfinish current hw]; simp)
      rw [henter, ← hsame, hhead]
      refine ⟨rfl, rfl, fun c hc => ?_, fun x hx => mem_append_left _ hx, hdistinct.1, fun hmem => ?_⟩
      · simp [hc]
      · exact hdistinct.2.2 _ hmem _ (by simp) rfl
    · have henter : w.enter r.event.chainId = (⟨r.event.chainId, 0, none, emptyAuditHash⟩, w.heads ++ [current]) := by
        simp [Walk.enter, hw, hsame]
      have hnil : ofChain r.event.chainId P = [] := by
        refine ofChain_eq_nil hsorted fun a ha hchain => hsame ?_
        have hcurrent := h.current
        rw [hw, Option.mem_def.mp ha] at hcurrent
        exact (Option.some.inj hcurrent).trans hchain
      rw [henter, hnil]
      refine ⟨rfl, rfl, fun c _ => Iff.rfl, fun x hx => hx, ?_, fun hmem => ?_⟩
      · rw [map_append, nodup_append]
        exact hdistinct
      · obtain ⟨x, hx, hchain⟩ := mem_map.mp hmem
        have hhead := h.heads x (by rw [hfinish current hw]; exact hx)
        rw [hchain, hnil] at hhead
        exact absurd hhead (by simp [headOf])

def Walk.next (w : Walk) (r : AuditRow) : Walk :=
  ⟨some (w.firstId.getD r.id), some (w.firstPreviousHash.getD r.previousHash), some r.id,
    some ⟨r.event.chainId, r.event.sequence, some r.id, r.entryHash⟩, (w.enter r.event.chainId).2⟩

theorem step_ok_iff {w w' : Walk} {r : AuditRow} : w.step sha256 n r = .ok w' ↔
    (r.event.sequence = (w.enter r.event.chainId).1.sequence + 1 ∧
      r.previousHash = (w.enter r.event.chainId).1.entryHash ∧
      entryHash sha256 r.previousHash r.event = r.entryHash) ∧ w' = w.next r := by
  unfold Walk.step Walk.next
  dsimp only
  split_ifs with hsequence hprevious hhash
  · simp [hsequence]
  · simp [hprevious]
  · simp [hhash]
  · simp only [ne_eq, not_not] at hsequence hprevious hhash
    exact ⟨fun h => ⟨⟨hsequence, hprevious, hhash⟩, (Except.ok.inj h).symm⟩, fun h => congrArg _ h.2.symm⟩

theorem WalkInv.step_ok_iff {w w' : Walk} {r : AuditRow} (h : WalkInv sha256 P w)
    (hsorted : (P ++ [r]).Pairwise fun a b => a.rank collation ≤ b.rank collation) :
    w.step sha256 n r = .ok w' ↔ Linked sha256 (ofChain r.event.chainId (P ++ [r])) ∧ w' = w.next r := by
  obtain ⟨hsequence, hhash, -⟩ := h.enter_spec hsorted
  rw [Audit.step_ok_iff, ofChain_append, ofChain_singleton rfl, linked_concat, hsequence, hhash]
  simp only [h.linked, true_and]

/-- A row that is accepted continues its chain, and the walk remembers it as the head. -/
theorem WalkInv.step {w w' : Walk} {r : AuditRow} (h : WalkInv sha256 P w)
    (hsorted : (P ++ [r]).Pairwise fun a b => a.rank collation ≤ b.rank collation)
    (hstep : w.step sha256 n r = .ok w') : WalkInv sha256 (P ++ [r]) w' := by
  obtain ⟨hlinked, rfl⟩ := (h.step_ok_iff hsorted).mp hstep
  obtain ⟨-, -, hothers, hsub, hnodup, hfresh⟩ := h.enter_spec hsorted
  have hfinish : (w.next r).finish = (w.enter r.event.chainId).2 ++
      [⟨r.event.chainId, r.event.sequence, some r.id, r.entryHash⟩] := rfl
  refine ⟨fun c => ?_, fun x hx => ?_, fun a ha => ?_, ?_, by simp [Walk.next]⟩
  · by_cases hc : r.event.chainId = c
    · exact hc ▸ hlinked
    · rw [ofChain_append, ofChain_singleton_of_ne hc, append_nil]
      exact h.linked c
  · rw [hfinish] at hx
    rcases mem_append.mp hx with hx | hx
    · have hne : r.event.chainId ≠ x.chainId := fun heq =>
        hfresh (mem_map.mpr ⟨x, hx, heq.symm⟩)
      rw [ofChain_append, ofChain_singleton_of_ne hne, append_nil]
      exact h.heads x (hsub x hx)
    · obtain rfl := mem_singleton.mp hx
      rw [ofChain_append, ofChain_singleton rfl, headOf_concat]
  · rw [hfinish, map_append, mem_append]
    by_cases hc : a.event.chainId = r.event.chainId
    · exact .inr (by simp [hc])
    · rcases mem_append.mp ha with ha | ha
      · exact .inl ((hothers _ hc).mpr (h.covered a ha))
      · exact absurd (congrArg (fun x : AuditRow => x.event.chainId) (mem_singleton.mp ha)) hc
  · rw [hfinish, map_append, nodup_append]
    refine ⟨hnodup, nodup_singleton _, fun a ha b hb hab => ?_⟩
    obtain rfl : b = r.event.chainId := by simpa using hb
    exact hfresh (hab ▸ ha)

theorem WalkInv.run (rows : List AuditRow) (h : WalkInv sha256 P w)
    (hsorted : (P ++ rows).Pairwise fun a b => a.rank collation ≤ b.rank collation) :
    (∀ w', Walk.run sha256 n rows w = .ok w' → WalkInv sha256 (P ++ rows) w') ∧
      ((∀ c, Linked sha256 (ofChain c (P ++ rows))) → ∃ w', Walk.run sha256 n rows w = .ok w') := by
  induction rows generalizing P w with
  | nil =>
    rw [append_nil]
    exact ⟨fun w' hrun => Except.ok.inj hrun ▸ h, fun _ => ⟨w, rfl⟩⟩
  | cons r rows ih =>
    rw [append_cons] at hsorted ⊢
    have hfront : (P ++ [r]).Pairwise fun a b => a.rank collation ≤ b.rank collation :=
      (pairwise_append.mp hsorted).1
    rw [Walk.run]
    cases hstep : w.step sha256 n r with
    | error failure =>
      refine ⟨fun w' hrun => (nomatch hrun), fun hlinked => ?_⟩
      have hchain := hlinked r.event.chainId
      rw [ofChain_append] at hchain
      have hok := (@WalkInv.step_ok_iff _ _ _ n _ (w.next r) _ h hfront).mpr ⟨ChainScheme.Linked.of_append hchain, rfl⟩
      rw [hstep] at hok
      cases hok
    | ok w₁ => exact ih (h.step hfront hstep) hsorted

theorem run_error (rows : List AuditRow) {failure : AuditChainVerification}
    (h : Walk.run sha256 n rows w = .error failure) : failure.valid = false := by
  induction rows generalizing w with
  | nil => cases h
  | cons r rows ih =>
    rw [Walk.run] at h
    cases hstep : w.step sha256 n r with
    | ok w₁ => exact ih (by rwa [hstep] at h)
    | error f =>
      rw [hstep] at h
      obtain rfl := Except.error.inj h
      unfold Walk.step at hstep
      dsimp only at hstep
      split_ifs at hstep <;> exact Except.error.inj hstep ▸ rfl

theorem sameEntries_iff {a b : ChainHeads} : sameEntries a b = true ↔ ∀ c, a.get? c = b.get? c := by
  simp only [sameEntries, Bool.and_eq_true, all_eq_true, decide_eq_true_eq]
  refine ⟨fun h c => ?_, fun h => ⟨fun c _ => h c, fun c _ => h c⟩⟩
  by_cases ha : c ∈ a.keys
  · exact h.1 c ha
  by_cases hb : c ∈ b.keys
  · exact h.2 c hb
  · rw [Dict.mem_keys_iff, ← Option.ne_none_iff_exists', not_not] at ha hb
    rw [ha, hb]

theorem WalkInv.get?_calculatedHeads (h : WalkInv sha256 P w) (c : String) :
    (calculatedHeads w.finish).get? c = headOf (ofChain c P) := by
  have hkeys : ((w.finish.map fun x => (x.chainId, (⟨x.sequence, x.id, x.entryHash⟩ : ChainHead))).map Prod.fst).Nodup := by
    simpa [Function.comp_def] using h.distinct
  rw [calculatedHeads, Dict.ofList, Dict.get?_foldl_set, Dict.lookup_reverse_of_nodup hkeys, Dict.get?_empty, Option.or_none]
  by_cases hc : c ∈ w.finish.map HeadSummary.chainId
  · obtain ⟨x, hx, rfl⟩ := mem_map.mp hc
    rw [h.heads x hx]
    exact (Dict.mem_entries_iff ⟨_, hkeys⟩ _ _).mp (mem_map.mpr ⟨x, hx, rfl⟩)
  · have hnone : ofChain c P = [] := by
      refine eq_nil_iff_forall_not_mem.mpr fun r hr => hc ?_
      obtain ⟨hmem, rfl⟩ := mem_ofChain.mp hr
      exact h.covered r hmem
    rw [hnone, headOf_eq_none.mpr rfl, Dict.lookup_eq_none_iff]
    simpa using hc

variable {log : List AuditRow} {c : String}

theorem inspect_valid_iff : (inspectAuditChain sha256 collation log stored).valid = true ↔
    (∀ c, Linked sha256 (chainRows collation log c)) ∧
      ∀ c, stored.get? c = some emptyHead ∨ headOf (chainRows collation log c) = stored.get? c := by
  have hsorted := sorted_rows collation log
  unfold inspectAuditChain chainRows
  dsimp only
  generalize log.insertionSort (fun a b => a.rank collation ≤ b.rank collation) = rows at hsorted ⊢
  obtain ⟨hkeep, hpass⟩ := walkInv_start.run (n := log.length) rows hsorted
  cases hw : Walk.run sha256 log.length rows .start with
  | error failure =>
    refine iff_of_false (by simp [run_error _ hw]) fun hright => ?_
    obtain ⟨w, hok⟩ := hpass hright.1
    rw [hw] at hok
    cases hok
  | ok w =>
    have hinv : WalkInv sha256 rows w := hkeep w hw
    have hheads : sameEntries ((calculatedHeads w.finish).spread (emptyHeads stored)) stored = true ↔
        ∀ c, stored.get? c = some emptyHead ∨ headOf (ofChain c rows) = stored.get? c := by
      rw [sameEntries_iff]
      refine forall_congr' fun c => ?_
      rw [Dict.get?_spread, emptyHeads, Dict.get?_filterEntries, hinv.get?_calculatedHeads]
      cases hstored : stored.get? c with
      | none => simp
      | some head => by_cases hempty : head = emptyHead <;> simp [Option.filter, hempty]
    rw [← hheads]
    dsimp only
    cases sameEntries ((calculatedHeads w.finish).spread (emptyHeads stored)) stored with
    | true => exact iff_of_true rfl ⟨hinv.linked, rfl⟩
    | false => simp

theorem valid_of_perm {log log' : List AuditRow} (hperm : log'.Perm log)
    (hvalid : (inspectAuditChain sha256 collation log stored).valid = true) :
    (inspectAuditChain sha256 collation log' stored).valid = true := by
  obtain ⟨hlinks, hheads⟩ := inspect_valid_iff.mp hvalid
  have hrows : ∀ c, chainRows collation log' c = chainRows collation log c := fun c =>
    chainRows_eq (hlinks c) ((hperm.filter _).trans (chainRows_perm log c).symm)
  refine inspect_valid_iff.mpr ⟨fun c => ?_, fun c => ?_⟩
  · rw [hrows]
    exact hlinks c
  · rw [hrows]
    exact hheads c

def AuditRow.hashed (r : AuditRow) : AuditEvent × String × String := (r.event, r.previousHash, r.entryHash)

def SameRows (log log' : List AuditRow) : Prop := (log.map AuditRow.hashed).Perm (log'.map AuditRow.hashed)

def HashInjectiveOn (sha256 : String → String) (log log' : List AuditRow) : Prop :=
  ∀ a ∈ log, ∀ b ∈ log', sha256 (entryPayload a.previousHash a.event) = sha256 (entryPayload b.previousHash b.event) →
    entryPayload a.previousHash a.event = entryPayload b.previousHash b.event

theorem mem_of_mem_chainRows {r : AuditRow} (h : r ∈ chainRows collation log c) : r ∈ log :=
  (mem_ofChain.mp ((chainRows_perm log c).subset h)).1

theorem count_hashed (collation : Collation) (log : List AuditRow) (x : AuditEvent × String × String) :
    (log.map AuditRow.hashed).count x = ((chainRows collation log x.1.chainId).map AuditRow.hashed).count x := by
  have hfilter : (ofChain x.1.chainId log).map AuditRow.hashed =
      (log.map AuditRow.hashed).filter fun y => y.1.chainId = x.1.chainId := by
    rw [filter_map]
    rfl
  rw [((chainRows_perm log x.1.chainId).map _).count_eq, hfilter, count_filter (by simp)]

theorem chain_unique {rows rows' : List AuditRow} (h : Linked sha256 rows) (h' : Linked sha256 rows')
    (hinjective : HashInjectiveOn sha256 rows rows') (hhead : headOf rows = headOf rows') :
    rows.map AuditRow.hashed = rows'.map AuditRow.hashed := by
  have hlast : (auditScheme sha256).lastOf emptyAuditHash 0 rows = (auditScheme sha256).lastOf emptyAuditHash 0 rows' := by
    rw [lastOf_eq, lastOf_eq, hhead]
  have hlength : rows.length = rows'.length := by
    have hseq := congrArg Prod.snd hlast
    rw [h.last_seq, h'.last_seq] at hseq
    omega
  have hfields := (h.unique h' (fun a ha b hb hdigest => entryPayload_inj (hinjective a ha b hb hdigest))
    hlength (congrArg Prod.fst hlast)).2
  have hproject := congrArg (List.map fun f : Int × String × String × AuditEvent => (f.2.2.2, f.2.1, f.2.2.1)) hfields
  rwa [map_map, map_map] at hproject

inductive Appended (sha256 : String → String) : AuditTables → Prop
  | start : Appended sha256 ⟨[], .empty⟩
  | insert {s : AuditTables} (h : Appended sha256 s) (entry : AuditEntry) (now : String) (id : Int) :
      Appended sha256 (insertAuditRow sha256 s entry now id)

def Anchored (sha256 : String → String) (s : AuditTables) : Prop :=
  ∀ c, Linked sha256 (ofChain c s.log) ∧ headOf (ofChain c s.log) = s.heads.get? c

theorem Anchored.insert (h : Anchored sha256 s) (entry : AuditEntry) (now : String) (id : Int) :
    Anchored sha256 (insertAuditRow sha256 s entry now id) := by
  intro c
  unfold insertAuditRow
  dsimp only
  obtain ⟨hlinked, hhead⟩ := h c
  rw [ofChain_append, Dict.get?_set]
  by_cases hc : c = entry.chainId
  · subst hc
    have hself : (entry.event now (((s.heads.get? entry.chainId).getD emptyHead).lastSequence + 1)).chainId =
        entry.chainId := rfl
    rw [ofChain_singleton hself, headOf_concat, if_pos rfl]
    refine ⟨linked_concat.mpr ⟨hlinked, ?_, ?_, rfl⟩, rfl⟩
    · rw [hhead]
      rfl
    · rw [hhead]
  · have hne : (entry.event now (((s.heads.get? entry.chainId).getD emptyHead).lastSequence + 1)).chainId ≠ c :=
      fun heq => hc heq.symm
    rw [ofChain_singleton_of_ne hne, append_nil, if_neg hc]
    exact ⟨hlinked, hhead⟩

theorem Appended.anchored (h : Appended sha256 s) : Anchored sha256 s := by
  induction h with
  | start => exact fun c => ⟨trivial, rfl⟩
  | insert _ entry now id ih => exact ih.insert entry now id

theorem Anchored.valid (h : Anchored sha256 s) : (inspectAuditChain sha256 collation s.log s.heads).valid = true := by
  have hrows : ∀ c, chainRows collation s.log c = ofChain c s.log := fun c => chainRows_eq (h c).1 (List.Perm.refl _)
  refine inspect_valid_iff.mpr ⟨fun c => ?_, fun c => .inr ?_⟩
  · rw [hrows]
    exact (h c).1
  · rw [hrows]
    exact (h c).2

theorem valid_replace {log rows : List AuditRow} (hvalid : (inspectAuditChain sha256 collation log stored).valid = true)
    (hempty : stored.get? c = some emptyHead) (hlinked : Linked sha256 rows) (hchain : ∀ r ∈ rows, r.event.chainId = c) :
    (inspectAuditChain sha256 collation ((log.filter fun r => r.event.chainId ≠ c) ++ rows) stored).valid = true := by
  obtain ⟨hlinks, hheads⟩ := inspect_valid_iff.mp hvalid
  have hself : ofChain c ((log.filter fun r => r.event.chainId ≠ c) ++ rows) = rows := by
    have hnone : ofChain c (log.filter fun r => r.event.chainId ≠ c) = [] :=
      filter_eq_nil_iff.mpr fun r hr => by simpa using (mem_filter.mp hr).2
    rw [ofChain_append, hnone, nil_append]
    exact filter_eq_self.mpr fun r hr => by simpa using hchain r hr
  have hother : ∀ c', c' ≠ c → chainRows collation ((log.filter fun r => r.event.chainId ≠ c) ++ rows) c' =
      chainRows collation log c' := by
    intro c' hc'
    have hnone : ofChain c' rows = [] :=
      filter_eq_nil_iff.mpr fun r hr => by simpa [hchain r hr] using hc'.symm
    have hsame : ofChain c' (log.filter fun r => r.event.chainId ≠ c) = ofChain c' log := by
      rw [ofChain, filter_filter]
      refine filter_congr fun r _ => ?_
      by_cases hr : r.event.chainId = c' <;> simp [hr, hc']
    refine chainRows_eq (hlinks c') ?_
    rw [ofChain_append, hnone, append_nil, hsame]
    exact (chainRows_perm log c').symm
  refine inspect_valid_iff.mpr ⟨fun c' => ?_, fun c' => ?_⟩
  · by_cases hc' : c' = c
    · subst hc'
      rw [chainRows_eq hlinked (List.Perm.of_eq hself)]
      exact hlinked
    · rw [hother c' hc']
      exact hlinks c'
  · by_cases hc' : c' = c
    · exact .inl (hc' ▸ hempty)
    · rw [hother c' hc']
      exact hheads c'

def firstRow (sha256 : String → String) (c : String) : AuditRow :=
  let event : AuditEvent := ⟨c, 1, none, none, "login", none, none, none, none, "2026-01-01 00:00:00"⟩
  ⟨1, event, emptyAuditHash, entryHash sha256 emptyAuditHash event⟩

theorem firstRow_linked (sha256 : String → String) (c : String) : Linked sha256 [firstRow sha256 c] :=
  ⟨rfl, rfl, rfl, trivial⟩

theorem sameRows_of_heads {log log' : List AuditRow} (hheads : ∀ c, stored.get? c ≠ some emptyHead)
    (hvalid : (inspectAuditChain sha256 collation log stored).valid = true)
    (hvalid' : (inspectAuditChain sha256 collation log' stored).valid = true)
    (hinjective : HashInjectiveOn sha256 log log') : SameRows log log' := by
  obtain ⟨hlinks, hends⟩ := inspect_valid_iff.mp hvalid
  obtain ⟨hlinks', hends'⟩ := inspect_valid_iff.mp hvalid'
  refine perm_iff_count.mpr fun x => ?_
  have hhead : headOf (chainRows collation log x.1.chainId) = headOf (chainRows collation log' x.1.chainId) :=
    ((hends _).resolve_left (hheads _)).trans ((hends' _).resolve_left (hheads _)).symm
  rw [count_hashed collation log, count_hashed collation log', chain_unique (hlinks _) (hlinks' _)
      (fun a ha b hb => hinjective a (mem_of_mem_chainRows ha) b (mem_of_mem_chainRows hb)) hhead]

theorem exists_other_log (hempty : stored.get? c = some emptyHead)
    (hvalid : (inspectAuditChain sha256 collation log stored).valid = true) :
    ∃ log', (inspectAuditChain sha256 collation log' stored).valid = true ∧ ¬ SameRows log log' := by
  have hwithout := valid_replace hvalid hempty (show Linked sha256 [] from trivial) (by simp)
  have hwith := valid_replace hvalid hempty (firstRow_linked sha256 c) fun r hr => mem_singleton.mp hr ▸ rfl
  rw [append_nil] at hwithout
  by_cases hsame : SameRows log (log.filter fun r => r.event.chainId ≠ c)
  · refine ⟨_, hwith, fun hother => ?_⟩
    have hlength := hsame.symm.trans hother |>.length_eq
    simp at hlength
  · exact ⟨_, hwithout, hsame⟩

/-! ## Tamper evidence -/

/-- Where no stored head is empty, two valid logs hold the same rows, unless the hash collides on them. Where one is, no
valid log is the only one. A log that is only appended to is valid, and no head of it is empty. -/
theorem audit_log_tamper_evident (sha256 : String → String) (collation : Collation) :
    (∀ stored : ChainHeads, (∀ c, stored.get? c ≠ some emptyHead) → ∀ log log',
      (inspectAuditChain sha256 collation log stored).valid = true →
      (inspectAuditChain sha256 collation log' stored).valid = true → HashInjectiveOn sha256 log log' → SameRows log log') ∧
    (∀ stored : ChainHeads, (¬ ∀ c, stored.get? c ≠ some emptyHead) → ∀ log,
      (inspectAuditChain sha256 collation log stored).valid = true →
      ∃ log', (inspectAuditChain sha256 collation log' stored).valid = true ∧ ¬ SameRows log log') ∧
    ∀ s, Appended sha256 s → (inspectAuditChain sha256 collation s.log s.heads).valid = true ∧
      ∀ c, s.heads.get? c ≠ some emptyHead := by
  refine ⟨fun stored hheads log log' => sameRows_of_heads hheads, fun stored hheads log hvalid => ?_,
    fun s hs => ⟨hs.anchored.valid, fun c hc => ?_⟩⟩
  · obtain ⟨c, hc⟩ := not_forall_not.mp hheads
    exact exists_other_log hc hvalid
  · have hhead := (hs.anchored c).2
    rw [hc] at hhead
    obtain ⟨r, -, hr⟩ := Option.map_eq_some_iff.mp hhead
    cases congrArg ChainHead.lastLogId hr

def sampleLogin (organizationId : String) : AuditEntry :=
  ⟨some "u1", some organizationId, "login", none, none, none, none, some "2026-01-01 08:00:00"⟩

def sampleSha256 (payload : String) : String :=
  if payload = "0000000000000000000000000000000000000000000000000000000000000000\n" ++
      "\x7b\"action\":\"login\",\"actor_user_id\":\"u1\"," ++
      "\"chain_id\":\"org-a\",\"created_at\":\"2026-01-01 08:00:00\"," ++
      "\"ip_address\":null,\"metadata_json\":null,\"organization_id\":\"org-a\",\"sequence\":1,\"target_id\":null,\"target_type\":null\x7d" then
    "85803c150df4cd10e8fc8b209ddfe6585ab0513714ffd735f95f2edf421f1812"
  else if payload = "0000000000000000000000000000000000000000000000000000000000000000\n" ++
      "\x7b\"action\":\"login\",\"actor_user_id\":\"u1\"," ++
      "\"chain_id\":\"org-b\",\"created_at\":\"2026-01-01 08:00:00\"," ++
      "\"ip_address\":null,\"metadata_json\":null,\"organization_id\":\"org-b\",\"sequence\":1,\"target_id\":null,\"target_type\":null\x7d" then
    "93e187053f080980c45e22fed1d4dc1d270ccc8082c58df0c7985db80da1ed31"
  else payload

theorem sampleSha256_injective (log log' : List AuditRow) : HashInjectiveOn sampleSha256 log log' := by
  intro a _ b _ h
  have hbreak : ∀ (p : String) (e : AuditEvent), '\n' ∈ (entryPayload p e).toList := fun p e => by simp [entryPayload]
  have hfirst : '\n' ∉ "85803c150df4cd10e8fc8b209ddfe6585ab0513714ffd735f95f2edf421f1812".toList := by decide
  have hsecond : '\n' ∉ "93e187053f080980c45e22fed1d4dc1d270ccc8082c58df0c7985db80da1ed31".toList := by decide
  unfold sampleSha256 at h
  split_ifs at h with ha hb hb ha hb hb hb hb
  · exact ha.trans hb.symm
  · exact absurd h (by decide)
  · exact absurd (hbreak _ _) (h ▸ hfirst)
  · exact absurd h (by decide)
  · exact ha.trans hb.symm
  · exact absurd (hbreak _ _) (h ▸ hsecond)
  · exact absurd (hbreak _ _) (h ▸ hfirst)
  · exact absurd (hbreak _ _) (h ▸ hsecond)
  · exact h

def sampleTables : AuditTables :=
  insertAuditRow sampleSha256 (insertAuditRow sampleSha256 ⟨[], .empty⟩ (sampleLogin "org-b") "" 1) (sampleLogin "org-a") "" 2

theorem sampleTables_appended : Appended sampleSha256 sampleTables := by
  unfold sampleTables
  exact (Appended.start.insert (sampleLogin "org-b") "" 1).insert (sampleLogin "org-a") "" 2

theorem audit_log_tamper_evident_sample :
    (inspectAuditChain sampleSha256 .codePoints sampleTables.log.reverse sampleTables.heads).valid = true ∧
      SameRows sampleTables.log sampleTables.log.reverse := by
  obtain ⟨hheads, -, happended⟩ := audit_log_tamper_evident sampleSha256 .codePoints
  obtain ⟨hvalid, hstored⟩ := happended sampleTables sampleTables_appended
  have hreverse := valid_of_perm (reverse_perm sampleTables.log) hvalid
  exact ⟨hreverse, hheads sampleTables.heads hstored _ _ hvalid hreverse (sampleSha256_injective _ _)⟩

/-- A chain whose head was stored empty takes any row: the log without it and the log with it are valid. -/
theorem forged_row_under_empty_head : ∃ (sha256 : String → String) (stored : ChainHeads) (log log' : List AuditRow),
    HashInjectiveOn sha256 (log ++ log') (log ++ log') ∧
    (inspectAuditChain sha256 .codePoints log stored).valid = true ∧
    (inspectAuditChain sha256 .codePoints log' stored).valid = true ∧ ¬ SameRows log log' := by
  have hchain : ∀ r ∈ (insertAuditRow sampleSha256 ⟨[], .empty⟩ (sampleLogin "org-a") "" 1).log,
      r.event.chainId = "org-a" := fun r hr => by
    rw [insertAuditRow, nil_append, mem_singleton] at hr
    exact hr ▸ rfl
  have hforged : Linked sampleSha256 (insertAuditRow sampleSha256 ⟨[], .empty⟩ (sampleLogin "org-a") "" 1).log := by
    have hlinked := ((Appended.start.insert (sampleLogin "org-a") "" 1 : Appended sampleSha256 _).anchored "org-a").1
    rwa [ofChain, filter_eq_self.mpr fun r hr => decide_eq_true (hchain r hr)] at hlinked
  have hnone : (inspectAuditChain sampleSha256 .codePoints [] (Dict.empty.set "org-a" emptyHead)).valid = true := by decide
  refine ⟨sampleSha256, Dict.empty.set "org-a" emptyHead, [], _, sampleSha256_injective _ _, hnone,
    valid_replace hnone (Dict.get?_set_self _ _ _) hforged hchain, fun h => ?_⟩
  have hlength := h.length_eq
  simp [insertAuditRow] at hlength

end Bidding.Audit
