import Bidding.Audit.Checkpoint

/-!
# The incremental inspection and the full one

Where the rows after the anchors are exactly those with the larger ids, the walk over the tail goes on where the full walk
stood, so the two inspections report the same. Elsewhere they never report the same heads.
-/

namespace Bidding.Audit

open Foundations List Dict

variable {sha256 : String → String} {collation : Collation}

/-! ## The walk over the tail -/

variable (states : ChainHeads) {r : AuditRow} {heads heads' : List HeadSummary}

def startOf (chainId : String) : ChainHead :=
  (states.get? chainId).getD emptyHead

def AuditRow.toHead (r : AuditRow) : ChainHead := ⟨r.event.sequence, some r.id, r.entryHash⟩

def Continues (sha256 : String → String) (states : ChainHeads) (rows : List AuditRow) : Prop :=
  ∀ c, (auditScheme sha256).Linked (startOf states c).lastHash (startOf states c).lastSequence (ofChain c rows)

def Follows (sha256 : String → String) (states : ChainHeads) (r : AuditRow) : Prop :=
  r.event.sequence = (startOf states r.event.chainId).lastSequence + 1 ∧
    r.previousHash = (startOf states r.event.chainId).lastHash ∧
    entryHash sha256 r.previousHash r.event = r.entryHash

theorem ofChain_cons_self (r : AuditRow) (rows : List AuditRow) :
    ofChain r.event.chainId (r :: rows) = r :: ofChain r.event.chainId rows := by
  simp [ofChain]

theorem ofChain_cons_of_ne {c : String} (h : r.event.chainId ≠ c)
    (rows : List AuditRow) : ofChain c (r :: rows) = ofChain c rows := by
  simp [ofChain, h]

theorem headOf_cons (r : AuditRow) (rows : List AuditRow) : headOf (r :: rows) = (headOf rows).or (some r.toHead) := by
  cases rows with
  | nil => rfl
  | cons a rows =>
    unfold headOf
    rw [getLast?_cons_cons]
    cases h : (a :: rows).getLast? with
    | none => simp at h
    | some l => rfl

theorem headOf_append (rows rows' : List AuditRow) : headOf (rows ++ rows') = (headOf rows').or (headOf rows) := by
  unfold headOf
  rw [getLast?_append]
  cases rows'.getLast? <;> rfl

theorem startOf_set (c c' : String) (head : ChainHead) :
    startOf (states.set c head) c' = if c' = c then head else startOf states c' := by
  unfold startOf
  rw [Dict.get?_set]
  split <;> rfl

theorem continues_cons {states : ChainHeads} {rows : List AuditRow} : Continues sha256 states (r :: rows) ↔
    Follows sha256 states r ∧ Continues sha256 (states.set r.event.chainId r.toHead) rows := by
  constructor
  · intro h
    have hself := h r.event.chainId
    rw [ofChain_cons_self] at hself
    obtain ⟨hseq, hprevious, hhash, hrest⟩ := hself
    refine ⟨⟨hseq, hprevious, hhash⟩, fun c => ?_⟩
    rw [startOf_set]
    by_cases hc : c = r.event.chainId
    · rw [if_pos hc, hc]
      have : r.toHead.lastSequence = (startOf states r.event.chainId).lastSequence + 1 := hseq
      rw [this]
      exact hrest
    · rw [if_neg hc]
      have hother := h c
      rwa [ofChain_cons_of_ne (Ne.symm hc)] at hother
  · rintro ⟨⟨hseq, hprevious, hhash⟩, h⟩ c
    have hrest := h c
    rw [startOf_set] at hrest
    by_cases hc : c = r.event.chainId
    · rw [if_pos hc] at hrest
      rw [hc] at hrest ⊢
      rw [ofChain_cons_self]
      have : r.toHead.lastSequence = (startOf states r.event.chainId).lastSequence + 1 := hseq
      rw [this] at hrest
      exact ⟨hseq, hprevious, hhash, hrest⟩
    · rw [if_neg hc] at hrest
      rwa [ofChain_cons_of_ne (Ne.symm hc)]

/-- A step of the tail goes through exactly when the row follows the head of its chain. -/
theorem TailWalk.step_spec (n : Int) (w : TailWalk) (r : AuditRow) :
    (Follows sha256 w.states r → ∃ w', w.step sha256 n r = .ok w' ∧
      w'.states = w.states.set r.event.chainId r.toHead) ∧
    (¬Follows sha256 w.states r → ∃ failure, w.step sha256 n r = .error failure) := by
  unfold TailWalk.step
  dsimp only
  constructor
  · rintro ⟨hseq, hprevious, hhash⟩
    unfold startOf at hseq hprevious
    rw [if_neg (not_not.mpr hseq), if_neg (not_not.mpr hprevious), if_neg (not_not.mpr hhash)]
    exact ⟨_, rfl, rfl⟩
  · intro h
    split_ifs with hseq hprevious hhash
    · exact ⟨_, rfl⟩
    · exact ⟨_, rfl⟩
    · exact ⟨_, rfl⟩
    · rw [not_not] at hseq hprevious hhash
      exact absurd ⟨hseq, hprevious, hhash⟩ h

/-- The tail goes through exactly when its rows continue the chains, and leaves the heads of the chains. -/
theorem TailWalk.run_spec (n : Int) (rows : List AuditRow) (w : TailWalk) :
    (∀ w', TailWalk.run sha256 n rows w = .ok w' → Continues sha256 w.states rows ∧
      ∀ c, w'.states.get? c = (headOf (ofChain c rows)).or (w.states.get? c)) ∧
    (Continues sha256 w.states rows → ∃ w', TailWalk.run sha256 n rows w = .ok w') := by
  induction rows generalizing w with
  | nil =>
    refine ⟨fun w' hrun => ?_, fun _ => ⟨w, rfl⟩⟩
    cases hrun
    exact ⟨fun _ => trivial, fun _ => rfl⟩
  | cons r rows ih =>
    rw [continues_cons]
    by_cases hfollows : Follows sha256 w.states r
    · obtain ⟨w₁, hstep, hstates⟩ := (w.step_spec n r).1 hfollows
      have hrun : TailWalk.run sha256 n (r :: rows) w = TailWalk.run sha256 n rows w₁ := by rw [TailWalk.run, hstep]
      obtain ⟨hkeep, hpass⟩ := ih w₁
      rw [hstates] at hkeep hpass
      rw [hrun]
      refine ⟨fun w' hok => ?_, fun hcontinues => hpass hcontinues.2⟩
      obtain ⟨hcontinues, hends⟩ := hkeep w' hok
      refine ⟨⟨hfollows, hcontinues⟩, fun c => ?_⟩
      rw [hends c, Dict.get?_set]
      by_cases hc : c = r.event.chainId
      · rw [if_pos hc, hc, ofChain_cons_self, headOf_cons, Option.or_assoc, Option.some_or]
      · rw [if_neg hc, ofChain_cons_of_ne (Ne.symm hc)]
    · obtain ⟨failure, hstep⟩ := (w.step_spec n r).2 hfollows
      have hrun : TailWalk.run sha256 n (r :: rows) w = .error failure := by rw [TailWalk.run, hstep]
      rw [hrun]
      exact ⟨fun w' hok => (nomatch hok), fun h => absurd h.1 hfollows⟩

/-! ## The heads of a valid inspection -/

def HeadSummary.toHead (h : HeadSummary) : ChainHead := ⟨h.sequence, h.id, h.entryHash⟩

/-- The heads are the ends of the chains, one for each chain that has one. -/
structure Ends (endOf : String → Option ChainHead) (heads : List HeadSummary) : Prop where
  distinct : (heads.map HeadSummary.chainId).Nodup
  mem_iff : ∀ h, h ∈ heads ↔ endOf h.chainId = some h.toHead

theorem Ends.perm_iff {e e' : String → Option ChainHead}
    (h : Ends e heads) (h' : Ends e' heads') : heads.Perm heads' ↔ ∀ c, e c = e' c := by
  rw [perm_ext_iff_of_nodup h.distinct.of_map h'.distinct.of_map]
  constructor
  · intro hsame c
    apply Option.ext
    intro head
    have hmem := hsame ⟨c, head.lastSequence, head.lastLogId, head.lastHash⟩
    rw [h.mem_iff, h'.mem_iff] at hmem
    exact hmem
  · intro hsame x
    rw [h.mem_iff, h'.mem_iff, hsame]

theorem inspect_ends {log : List AuditRow} {stored : ChainHeads}
    (hvalid : (inspectAuditChain sha256 collation log stored).valid = true) :
    Ends (fun c => headOf (chainRows collation log c)) (inspectAuditChain sha256 collation log stored).heads ∧
      (inspectAuditChain sha256 collation log stored).rowCount = log.length := by
  have hsorted := sorted_rows collation log
  unfold inspectAuditChain at hvalid ⊢
  unfold chainRows
  dsimp only at hvalid ⊢
  generalize log.insertionSort (fun a b => a.rank collation ≤ b.rank collation) = rows
    at hsorted hvalid ⊢
  cases hw : Walk.run sha256 log.length rows .start with
  | error failure =>
    rw [hw] at hvalid
    exact absurd hvalid (by simp [run_error _ hw])
  | ok w =>
    have hinv : WalkInv sha256 rows w := (walkInv_start.run rows hsorted).1 w hw
    have hends : Ends (fun c => headOf (ofChain c rows)) w.finish := by
      refine ⟨hinv.distinct, fun h => ⟨fun hmem => hinv.heads h hmem, fun hend => ?_⟩⟩
      obtain ⟨r, hr, -⟩ := Option.map_eq_some_iff.mp hend
      obtain ⟨hmem, hchain⟩ := mem_ofChain.mp (mem_of_getLast? hr)
      obtain ⟨x, hx, hxchain⟩ := mem_map.mp (hinv.covered r hmem)
      have hxend := hinv.heads x hx
      rw [hxchain, hchain, hend] at hxend
      have hsame : h = x := by
        have hhead := Option.some.inj hxend
        cases h
        cases x
        simp only [HeadSummary.toHead, ChainHead.mk.injEq] at hhead
        simp only [HeadSummary.mk.injEq]
        exact ⟨hchain.symm.trans hxchain.symm, hhead⟩
      exact hsame ▸ hx
    dsimp only
    split
    · exact ⟨hends, rfl⟩
    · exact ⟨hends, rfl⟩

theorem finish_sorted {n : ℕ} (rows : List AuditRow) {P : List AuditRow} {w w' : Walk} (h : WalkInv sha256 P w)
    (hsorted : (P ++ rows).Pairwise fun a b => a.rank collation ≤ b.rank collation) (hw : w.finish.Pairwise fun a b =>
      (show Collated collation from a.chainId) ≤ (show Collated collation from b.chainId))
    (hrun : Walk.run sha256 n rows w = .ok w') :
    w'.finish.Pairwise fun a b =>
      (show Collated collation from a.chainId) ≤ (show Collated collation from b.chainId) := by
  induction rows generalizing P w with
  | nil => exact Except.ok.inj hrun ▸ hw
  | cons r rows ih =>
    rw [append_cons] at hsorted
    have hfront := (pairwise_append.mp hsorted).1
    rw [Walk.run] at hrun
    cases hstep : w.step sha256 n r with
    | error failure =>
      rw [hstep] at hrun
      cases hrun
    | ok w₁ =>
      rw [hstep] at hrun
      refine ih (h.step hfront hstep) hsorted ?_ hrun
      obtain ⟨-, rfl⟩ := Audit.step_ok_iff.mp hstep
      have hsub : (w.enter r.event.chainId).2.Sublist w.finish := by
        unfold Walk.enter Walk.finish
        cases w.currentChain with
        | none => simp
        | some current =>
          dsimp only
          split
          · exact sublist_append_left _ _
          · exact List.Sublist.refl _
      have hfinish : (w.next r).finish = (w.enter r.event.chainId).2 ++
          [⟨r.event.chainId, r.event.sequence, some r.id, r.entryHash⟩] := rfl
      rw [hfinish, pairwise_append]
      refine ⟨hw.sublist hsub, pairwise_singleton _ _, fun x hx y hy => ?_⟩
      obtain rfl := mem_singleton.mp hy
      -- the chain of a head has a row before `r`
      obtain ⟨a, ha, -⟩ := Option.map_eq_some_iff.mp (h.heads x (hsub.subset hx))
      obtain ⟨hmem, hchain⟩ := mem_ofChain.mp (mem_of_getLast? ha)
      have hle := rank_chain_le ((pairwise_append.mp hfront).2.2 a hmem r (by simp))
      rw [hchain] at hle
      exact hle

theorem inspect_sorted {log : List AuditRow} {stored : ChainHeads}
    (hvalid : (inspectAuditChain sha256 collation log stored).valid = true) :
    (inspectAuditChain sha256 collation log stored).heads.Pairwise fun a b =>
      (show Collated collation from a.chainId) ≤ (show Collated collation from b.chainId) := by
  have hsorted := sorted_rows collation log
  unfold inspectAuditChain at hvalid ⊢
  dsimp only at hvalid ⊢
  generalize log.insertionSort (fun a b => a.rank collation ≤ b.rank collation) = rows
    at hsorted hvalid ⊢
  cases hw : Walk.run sha256 log.length rows .start with
  | error failure =>
    rw [hw] at hvalid
    exact absurd hvalid (by simp [run_error _ hw])
  | ok w =>
    have hfinish := finish_sorted rows walkInv_start hsorted (by simp [Walk.start, Walk.finish]) hw
    dsimp only
    split
    · exact hfinish
    · exact hfinish

theorem sortedHeads_ends : Ends states.get? (sortedHeads states) := by
  have hperm : (states.entries.insertionSort fun a b => a.1 ≤ b.1).Perm states.entries :=
    perm_insertionSort _ _
  refine ⟨?_, fun h => ?_⟩
  · have hkeys : ((sortedHeads states).map HeadSummary.chainId).Perm states.keys := by
      unfold sortedHeads Dict.keys
      rw [map_map]
      exact hperm.map Prod.fst
    exact hkeys.nodup_iff.mpr states.nodupKeys
  · unfold sortedHeads
    rw [← mem_entries_iff, ← hperm.mem_iff, mem_map]
    constructor
    · rintro ⟨entry, hentry, rfl⟩
      exact hentry
    · intro hentry
      exact ⟨_, hentry, rfl⟩

theorem sortedHeads_sorted : (sortedHeads states).Pairwise fun a b => a.chainId ≤ b.chainId := by
  have hsorted := pairwise_insertionSort (fun a b : String × ChainHead => a.1 ≤ b.1) states.entries
  exact pairwise_map.mpr (hsorted.imp fun hle => hle)

variable {e : String → Option ChainHead}

theorem Ends.eq_of_perm (h : Ends e heads) (hperm : heads.Perm heads')
    (hsorted : heads.Pairwise fun a b => a.chainId ≤ b.chainId)
    (hsorted' : heads'.Pairwise fun a b => a.chainId ≤ b.chainId) : heads = heads' :=
  List.Perm.eq_of_pairwise (fun _ _ ha hb hab hba => inj_on_of_nodup_map h.distinct ha
    (hperm.mem_iff.mpr hb) (le_antisymm hab hba)) hsorted hsorted' hperm

theorem Ends.get?_calculatedHeads (h : Ends e heads) (c : String) : (calculatedHeads heads).get? c = e c := by
  have hkeys : ((heads.map fun x => (x.chainId, x.toHead)).map Prod.fst).Nodup := by
    simpa [Function.comp_def] using h.distinct
  have hlookup : (calculatedHeads heads).get? c = Dict.lookup c (heads.map fun x => (x.chainId, x.toHead)) := by
    rw [calculatedHeads, Dict.ofList, Dict.get?_foldl_set]
    exact (Dict.lookup_reverse_of_nodup hkeys c ▸ Option.or_none)
  rw [hlookup]
  apply Option.ext
  intro head
  have hentry := Dict.mem_entries_iff ⟨_, hkeys⟩ c head
  unfold Dict.get? at hentry
  rw [← hentry, mem_map]
  constructor
  · rintro ⟨x, hx, hxc⟩
    obtain ⟨rfl, rfl⟩ := Prod.mk.inj hxc
    exact (h.mem_iff x).mp hx
  · intro hend
    exact ⟨⟨c, head.lastSequence, head.lastLogId, head.lastHash⟩, (h.mem_iff _).mpr hend, rfl⟩

theorem Ends.sameEntries_iff (h : Ends e heads) (stored : ChainHeads) :
    sameEntries ((calculatedHeads heads).spread (emptyHeads stored)) stored = true ↔
      ∀ c, stored.get? c = some emptyHead ∨ e c = stored.get? c := by
  rw [Audit.sameEntries_iff]
  refine forall_congr' fun c => ?_
  rw [Dict.get?_spread, emptyHeads, Dict.get?_filterEntries, h.get?_calculatedHeads]
  cases hstored : stored.get? c with
  | none => simp
  | some head => by_cases hempty : head = emptyHead <;> simp [Option.filter, hempty]

/-! ## The heads of a checkpoint -/

theorem find?_eq_of_unique {α : Type} {p : α → Bool} {l : List α} {a : α} (ha : a ∈ l)
    (hp : p a = true) (hunique : ∀ x ∈ l, p x = true → x = a) : l.find? p = some a := by
  cases h : l.find? p with
  | none => exact absurd hp (by simpa using List.find?_eq_none.mp h a ha)
  | some x => rw [hunique x (mem_of_find?_eq_some h) (find?_some h)]

theorem length_eq_sum_ofChain (chains : List String) (hnodup : chains.Nodup) (rows : List AuditRow)
    (hcover : ∀ r ∈ rows, r.event.chainId ∈ chains) :
    (rows.length : Int) = (chains.map fun c => ((ofChain c rows).length : Int)).sum := by
  induction chains generalizing rows with
  | nil =>
    have hnil : rows = [] := eq_nil_iff_forall_not_mem.mpr fun r hr => by simpa using hcover r hr
    rw [hnil]
    rfl
  | cons c chains ih =>
    obtain ⟨hfresh, hnodup⟩ := nodup_cons.mp hnodup
    have hrest := ih hnodup (rows.filter fun r => !decide (r.event.chainId = c)) fun r hr => by
      obtain ⟨hmem, hne⟩ := mem_filter.mp hr
      exact (mem_cons.mp (hcover r hmem)).resolve_left (by simpa using hne)
    have hsame : chains.map (fun c' =>
        ((ofChain c' (rows.filter fun r => !decide (r.event.chainId = c))).length : Int)) =
        chains.map fun c' => ((ofChain c' rows).length : Int) := by
      refine map_congr_left fun c' hc' => ?_
      have hne : c' ≠ c := fun h => hfresh (h ▸ hc')
      have hfilter : ofChain c' (rows.filter fun r => !decide (r.event.chainId = c)) = ofChain c' rows := by
        unfold ofChain
        rw [filter_filter]
        apply filter_congr
        intro r _
        by_cases hr : r.event.chainId = c'
        · simp [hr, hne]
        · simp [hr]
      rw [hfilter]
    rw [map_cons, sum_cons, ← hsame, ← hrest]
    exact_mod_cast length_eq_length_filter_add _

section

variable {table : AuditTable} {stored : ChainHeads}

variable {log : List AuditRow} {h : HeadSummary}

section

variable (hvalid : (inspectAuditChain sha256 collation log stored).valid = true)
include hvalid

theorem exists_row_of_head (hmem : h ∈ (inspectAuditChain sha256 collation log stored).heads) :
    ∃ r ∈ log, r.event.chainId = h.chainId ∧ r.toHead = h.toHead ∧ 0 < h.sequence := by
  have hend := ((inspect_ends hvalid).1.mem_iff h).mp hmem
  obtain ⟨r, hr, htoHead⟩ := Option.map_eq_some_iff.mp hend
  have hchain := mem_of_getLast? hr
  obtain ⟨hrmem, hrchain⟩ := mem_ofChain.mp ((chainRows_perm log h.chainId).subset hchain)
  refine ⟨r, hrmem, hrchain, htoHead, ?_⟩
  have hseq := ((inspect_valid_iff.mp hvalid).1 h.chainId).seq_gt r hchain
  have hsame : r.event.sequence = h.sequence := congrArg ChainHead.lastSequence htoHead
  exact hsame ▸ hseq

theorem length_ofChain_eq (c : String) :
    ((ofChain c log).length : Int) = ((headOf (chainRows collation log c)).getD emptyHead).lastSequence := by
  have hlinked := (inspect_valid_iff.mp hvalid).1 c
  have hseq := hlinked.last_seq
  rw [lastOf_eq] at hseq
  rw [← (chainRows_perm log c : (chainRows collation log c).Perm _).length_eq]
  have hlength : ((headOf (chainRows collation log c)).getD emptyHead).lastSequence =
      0 + ((chainRows collation log c).length : Int) := hseq
  omega

theorem sum_sequences :
    ((inspectAuditChain sha256 collation log stored).heads.map HeadSummary.sequence).sum = (log.length : Int) := by
  have hends := (inspect_ends hvalid).1
  have hcover : ∀ r ∈ log, r.event.chainId ∈ (inspectAuditChain sha256 collation log stored).heads.map HeadSummary.chainId := by
    intro r hr
    have hmem : r ∈ chainRows collation log r.event.chainId :=
      (chainRows_perm log r.event.chainId).mem_iff.mpr (mem_ofChain.mpr ⟨hr, rfl⟩)
    cases hend : headOf (chainRows collation log r.event.chainId) with
    | none =>
      rw [headOf_eq_none.mp hend] at hmem
      cases hmem
    | some head =>
      exact mem_map.mpr ⟨⟨r.event.chainId, head.lastSequence, head.lastLogId, head.lastHash⟩,
        (hends.mem_iff _).mpr hend, rfl⟩
  rw [length_eq_sum_ofChain _ hends.distinct log hcover, map_map]
  congr 1
  refine map_congr_left fun h hmem => ?_
  have hend : headOf (chainRows collation log h.chainId) = some h.toHead := (hends.mem_iff h).mp hmem
  have hlength := length_ofChain_eq hvalid h.chainId
  rw [hend] at hlength
  exact hlength.symm

end

/-! ## The checks of a checkpoint -/

theorem head_shape (hvalid : (inspectAuditChain sha256 collation table.rows stored).valid = true)
    (hmem : h ∈ (inspectAuditChain sha256 collation table.rows stored).heads) :
    h.chainId ≠ "" ∧ 0 < h.sequence ∧ (∃ id, h.id = some id ∧ 0 < id) ∧ h.entryHash.length = 64 := by
  obtain ⟨r, hr, hchain, htoHead, hpos⟩ := exists_row_of_head hvalid hmem
  have hid : some r.id = h.id := congrArg ChainHead.lastLogId htoHead
  have hhash : r.entryHash = h.entryHash := congrArg ChainHead.lastHash htoHead
  refine ⟨?_, hpos, ⟨r.id, hid.symm, table.id_pos r hr⟩, ?_⟩
  · rw [← hchain]
    exact table.chain_ne r hr
  · rw [← hhash]
    exact table.hash_length r hr

theorem readStates_spec (heads : List HeadSummary) (states : ChainHeads)
    (hshape : ∀ h ∈ heads, h.chainId ≠ "" ∧ 0 < h.sequence ∧ (∃ id, h.id = some id ∧ 0 < id) ∧
      h.entryHash.length = 64)
    (hdistinct : (heads.map HeadSummary.chainId).Nodup)
    (hfresh : ∀ h ∈ heads, states.get? h.chainId = none) :
    ∃ out, readStates heads states = some out ∧
      out.entries = states.entries ++ heads.map fun h => (h.chainId, h.toHead) := by
  induction heads generalizing states with
  | nil => exact ⟨states, rfl, by simp⟩
  | cons h heads ih =>
    obtain ⟨hchain, hseq, ⟨id, hid, hidpos⟩, hlength⟩ := hshape h mem_cons_self
    obtain ⟨hother, hdistinct⟩ := nodup_cons.mp hdistinct
    have hnone := hfresh h mem_cons_self
    obtain ⟨out, hout, hentries⟩ := ih (states.set h.chainId h.toHead)
      (fun x hx => hshape x (mem_cons_of_mem h hx)) hdistinct fun x hx => by
        have hne : x.chainId ≠ h.chainId := fun heq => hother (heq ▸ mem_map_of_mem hx)
        rw [Dict.get?_set_of_ne _ _ hne]
        exact hfresh x (mem_cons_of_mem h hx)
    refine ⟨out, ?_, ?_⟩
    · rw [readStates, if_neg]
      · exact hout
      · have hcontains : states.contains h.chainId = false := by
          rw [Dict.contains, hnone]
          rfl
        have hidle : ¬id ≤ 0 := by omega
        have hseqle : ¬h.sequence ≤ 0 := by omega
        simp [hchain, hcontains, hid, hidle, hseqle, hlength]
    · rw [hentries, Dict.entries_set_of_fresh _ _ hnone]
      simp

theorem AuditTable.eq_of_id (table : AuditTable) {a b : AuditRow} (ha : a ∈ table.rows)
    (hb : b ∈ table.rows) (h : a.id = b.id) : a = b :=
  inj_on_of_nodup_map table.ids ha hb h

def Rooted (rows : List AuditRow) (heads : List HeadSummary) : Prop :=
  ∀ h ∈ heads, ∃ r ∈ rows, r.event.chainId = h.chainId ∧ r.toHead = h.toHead

theorem Rooted.exists_id {rows : List AuditRow} (hrooted : Rooted rows heads)
    (hmem : h ∈ heads) : ∃ r ∈ rows, r.event.chainId = h.chainId ∧ h.id = some r.id ∧ r.event.sequence = h.sequence ∧
      r.entryHash = h.entryHash := by
  obtain ⟨r, hr, hchain, htoHead⟩ := hrooted h hmem
  exact ⟨r, hr, hchain, (congrArg ChainHead.lastLogId htoHead).symm,
    congrArg ChainHead.lastSequence htoHead, congrArg ChainHead.lastHash htoHead⟩

section

variable (hrooted : Rooted table.rows heads)
include hrooted

theorem checkAnchors_spec : checkAnchors table.rows heads = .ok () := by
  induction heads with
  | nil => rfl
  | cons h heads ih =>
    obtain ⟨r, hr, hchain, hid, -, hhash⟩ := hrooted.exists_id mem_cons_self
    have hfind : table.rows.find? (fun x => x.event.chainId = h.chainId && x.id = r.id) = some r :=
      find?_eq_of_unique hr (by simp [hchain]) fun x hx hp =>
        table.eq_of_id hx hr (by simpa using (Bool.and_eq_true_iff.mp hp).2)
    simp only [checkAnchors, hid, hfind, hhash]
    rw [if_neg (not_not.mpr rfl)]
    exact ih fun x hx => hrooted x (mem_cons_of_mem h hx)

theorem findAnchors_spec (entries : List HeadSummary) (hsub : entries ⊆ heads) :
    findAnchors table.rows heads (entries.map fun h => (h.chainId, h.toHead)) = .ok () := by
  induction entries with
  | nil => rfl
  | cons h entries ih =>
    have hmem := hsub mem_cons_self
    obtain ⟨r, hr, hchain, hid, hseq, hhash⟩ := hrooted.exists_id hmem
    have hanchor : r.id ∈ anchorIds heads := mem_filterMap.mpr ⟨h, hmem, hid⟩
    have hfind : (table.rows.filter fun x => x.id ∈ anchorIds heads).find?
        (fun x => some x.id = h.toHead.lastLogId) = some r := by
      have hlast : h.toHead.lastLogId = some r.id := hid
      rw [hlast]
      refine find?_eq_of_unique (mem_filter.mpr ⟨hr, by simpa using hanchor⟩) (by simp) fun x hx hp => ?_
      exact table.eq_of_id (mem_filter.mp hx).1 hr (by simpa using hp)
    rw [map_cons, findAnchors, hfind]
    dsimp only
    rw [if_neg]
    · exact ih fun x hx => hsub (mem_cons_of_mem h hx)
    · have hseq' : r.event.sequence = h.toHead.lastSequence := hseq
      have hhash' : r.entryHash = h.toHead.lastHash := hhash
      simp [hchain, hseq', hhash']

theorem length_anchored (hdistinct : (heads.map HeadSummary.chainId).Nodup) :
    (table.rows.filter fun r => r.id ∈ anchorIds heads).length = (anchorIds heads).length := by
  have hanchors : (anchorIds heads).Nodup := by
    unfold anchorIds
    refine (pairwise_filterMap).mpr ((pairwise_map.mp hdistinct).imp_of_mem ?_)
    intro a b ha hb hne x hx y hy hxy
    obtain ⟨r, hr, hrchain, hrid, -⟩ := hrooted.exists_id ha
    obtain ⟨r', hr', hrchain', hrid', -⟩ := hrooted.exists_id hb
    rw [hrid] at hx
    rw [hrid'] at hy
    have hsame : r.id = r'.id := by rw [Option.some.inj (Option.mem_def.mp hx), Option.some.inj (Option.mem_def.mp hy), hxy]
    rw [table.eq_of_id hr hr' hsame] at hrchain
    exact hne (hrchain.symm.trans hrchain')
  have hperm : ((table.rows.filter fun r => r.id ∈ anchorIds heads).map AuditRow.id).Perm (anchorIds heads) := by
    rw [perm_ext_iff_of_nodup (table.ids.sublist (filter_sublist.map _)) hanchors]
    intro id
    simp only [mem_map, mem_filter, decide_eq_true_eq]
    constructor
    · rintro ⟨r, ⟨-, hr⟩, rfl⟩
      exact hr
    · intro hid
      obtain ⟨h, hmem, hhid⟩ := mem_filterMap.mp hid
      obtain ⟨r, hr, -, hrid, -⟩ := hrooted.exists_id hmem
      rw [hrid] at hhid
      cases hhid
      exact ⟨r, ⟨hr, hid⟩, rfl⟩
  simpa using hperm.length_eq

end

end

/-! ## The two inspections -/

def Checkpoint.covers (checkpoint : Checkpoint) (r : AuditRow) : Bool :=
  checkpoint.heads.any fun h => h.chainId = r.event.chainId && r.event.sequence ≤ h.sequence

def Checkpoint.tail (checkpoint : Checkpoint) (rows : List AuditRow) : List AuditRow :=
  rows.filter fun r => maximumAnchorId checkpoint.heads < r.id

def Checkpoint.Parts (checkpoint : Checkpoint) (rows : List AuditRow) : Prop :=
  ∀ r ∈ rows, checkpoint.covers r = true ↔ r.id ≤ maximumAnchorId checkpoint.heads

def GoesOn (sha256 : String → String) (collation : Collation) (taken tail : List AuditRow) : Prop :=
  ∀ c, (auditScheme sha256).Linked ((headOf (chainRows collation taken c)).getD emptyHead).lastHash
    ((headOf (chainRows collation taken c)).getD emptyHead).lastSequence (chainRows collation tail c)

def endAfter (collation : Collation) (taken tail : List AuditRow) (c : String) : Option ChainHead :=
  (headOf (chainRows collation tail c)).or (headOf (chainRows collation taken c))

def Materialized (stored : ChainHeads) (endOf : String → Option ChainHead) : Prop :=
  ∀ c, stored.get? c = some emptyHead ∨ endOf c = stored.get? c

section

variable {digests : Digests} {taken : AuditTable} {takenHeads : ChainHeads} {db : AuditDatabase}
  {checkpoint : Checkpoint} {key : Option String} {rows : List AuditRow}

/-- The rows a checkpoint was taken from, and a database that still has them: the rows up to
its anchors are these rows. -/
structure TakenFrom (digests : Digests) (collation : Collation) (taken : AuditTable)
    (takenHeads : ChainHeads) (checkpoint : Checkpoint) (rows : List AuditRow) : Prop where
  built : ∃ installationId key now, buildAuditCheckpoint digests installationId key now
    (inspectAuditChain digests.sha256 collation taken.rows takenHeads) = some checkpoint
  kept : (rows.filter checkpoint.covers).Perm taken.rows

theorem TakenFrom.spec (h : TakenFrom digests collation taken takenHeads checkpoint rows) :
    (inspectAuditChain digests.sha256 collation taken.rows takenHeads).valid = true ∧
      checkpoint.heads = (inspectAuditChain digests.sha256 collation taken.rows takenHeads).heads ∧
      checkpoint.rowCount = (taken.rows.length : Int) := by
  obtain ⟨installationId, key, now, hbuilt⟩ := h.built
  unfold buildAuditCheckpoint at hbuilt
  cases hvalid : (inspectAuditChain digests.sha256 collation taken.rows takenHeads).valid with
  | false =>
    rw [hvalid] at hbuilt
    cases hbuilt
  | true =>
    rw [hvalid] at hbuilt
    cases installationId with
    | none => cases hbuilt
    | some installationId =>
      dsimp only at hbuilt
      rw [if_neg (by simp)] at hbuilt
      split at hbuilt
      · cases hbuilt
      · cases hbuilt
        exact ⟨rfl, rfl, congrArg Nat.cast (inspect_ends hvalid).2⟩

section

variable (h : TakenFrom digests collation taken takenHeads checkpoint db.log.rows)
include h

theorem TakenFrom.rooted : Rooted db.log.rows checkpoint.heads := by
  obtain ⟨hvalid, hheads, -⟩ := h.spec
  intro x hx
  rw [hheads] at hx
  obtain ⟨r, hr, hchain, htoHead, -⟩ := exists_row_of_head hvalid hx
  exact ⟨r, (mem_filter.mp (h.kept.mem_iff.mpr hr)).1, hchain, htoHead⟩

/-- The incremental inspection passes where the checkpoint is genuine, the tail goes on from
the chains it was taken from, and the stored heads are the ends. -/
theorem incremental_spec
    (key : Option String) : (∀ v, inspectAuditChainIncremental digests collation db checkpoint key = .ok v →
      (verifyAuditCheckpoint digests checkpoint key = true ∧
        db.installationId = some checkpoint.installationId) ∧
      GoesOn digests.sha256 collation taken.rows (checkpoint.tail db.log.rows) ∧
      Materialized db.heads (endAfter collation taken.rows (checkpoint.tail db.log.rows)) ∧
      Ends (endAfter collation taken.rows (checkpoint.tail db.log.rows)) v.heads ∧
      v.heads.Pairwise fun a b => a.chainId ≤ b.chainId) ∧
    ((verifyAuditCheckpoint digests checkpoint key = true ∧
        db.installationId = some checkpoint.installationId) →
      GoesOn digests.sha256 collation taken.rows (checkpoint.tail db.log.rows) →
      Materialized db.heads (endAfter collation taken.rows (checkpoint.tail db.log.rows)) →
      ∃ v, inspectAuditChainIncremental digests collation db checkpoint key = .ok v) := by
  obtain ⟨hvalid, hheads, hcount⟩ := h.spec
  have hends := (inspect_ends hvalid).1
  rw [← hheads] at hends
  have hrooted := h.rooted
  obtain ⟨states, hstates, hentries⟩ := readStates_spec checkpoint.heads .empty
    (fun x hx => head_shape hvalid (hheads ▸ hx)) hends.distinct fun _ _ => rfl
  have hget : ∀ c, states.get? c = headOf (chainRows collation taken.rows c) := by
    intro c
    apply Option.ext
    intro head
    rw [← mem_entries_iff, hentries]
    have hmem := hends.mem_iff ⟨c, head.lastSequence, head.lastLogId, head.lastHash⟩
    constructor
    · intro hentry
      rw [show (empty : ChainHeads).entries = [] from rfl, nil_append] at hentry
      obtain ⟨x, hx, hxc⟩ := mem_map.mp hentry
      obtain ⟨rfl, rfl⟩ := Prod.mk.inj hxc
      exact (hends.mem_iff x).mp hx
    · intro hend
      have hx := hmem.mpr hend
      exact mem_append_right _ (mem_map.mpr ⟨_, hx, rfl⟩)
  have hsum : (states.values.map ChainHead.lastSequence).sum = checkpoint.rowCount := by
    rw [hcount, ← sum_sequences hvalid, ← hheads, values, hentries]
    simp [empty, HeadSummary.toHead, Function.comp_def]
  have hanchors : findAnchors db.log.rows checkpoint.heads states.entries = .ok () := by
    rw [hentries]
    exact findAnchors_spec hrooted checkpoint.heads (List.Subset.refl _)
  have hanchored := length_anchored hrooted hends.distinct
  have hnonneg : ¬checkpoint.rowCount < 0 := by omega
  have hgoesOn : Continues digests.sha256 states
      ((checkpoint.tail db.log.rows).insertionSort fun a b => a.rank collation ≤ b.rank collation) ↔
      GoesOn digests.sha256 collation taken.rows (checkpoint.tail db.log.rows) := by
    unfold Continues GoesOn startOf
    simp only [hget]
    rfl
  have hrun := fun w : TailWalk => @TailWalk.run_spec digests.sha256 checkpoint.rowCount
    ((checkpoint.tail db.log.rows).insertionSort fun a b => a.rank collation ≤ b.rank collation) w
  have hafter : ∀ w' : TailWalk, (∀ c, w'.states.get? c = (headOf (ofChain c ((checkpoint.tail db.log.rows).insertionSort
        fun a b => a.rank collation ≤ b.rank collation))).or (states.get? c)) →
      Ends (endAfter collation taken.rows (checkpoint.tail db.log.rows)) (sortedHeads w'.states) := by
    intro w' hends'
    have : w'.states.get? = endAfter collation taken.rows (checkpoint.tail db.log.rows) := by
      funext c
      rw [hends' c, hget c]
      rfl
    exact this ▸ sortedHeads_ends w'.states
  unfold inspectAuditChainIncremental
  by_cases hverify : verifyAuditCheckpoint digests checkpoint key = true
  case neg =>
    rw [if_pos (by simpa using hverify)]
    exact ⟨fun v hv => absurd hv (by simp), fun hgenuine => absurd hgenuine.1 hverify⟩
  by_cases hinstalled : db.installationId = some checkpoint.installationId
  case neg =>
    rw [if_neg (by simpa using hverify), if_pos hinstalled]
    exact ⟨fun v hv => absurd hv (by simp), fun hgenuine => absurd hgenuine.2 hinstalled⟩
  rw [if_neg (by simpa using hverify), if_neg (not_not.mpr hinstalled), if_neg hnonneg, hstates]
  dsimp only
  rw [if_neg (not_not.mpr hsum.symm), if_neg (not_not.mpr hanchored), hanchors]
  dsimp only
  obtain ⟨hkeep, hpass⟩ := hrun ⟨states, 0, none, none,
    if maximumAnchorId checkpoint.heads = 0 then none else some (maximumAnchorId checkpoint.heads)⟩
  unfold Checkpoint.tail at hkeep hpass hgoesOn hafter ⊢
  split
  · rename_i failure hfailure
    refine ⟨fun v hv => absurd hv (by simp), fun _ hgoes => ?_⟩
    obtain ⟨w', hok⟩ := hpass (hgoesOn.mpr hgoes)
    rw [hok] at hfailure
    cases hfailure
  · rename_i w' hok
    obtain ⟨hcontinues, hends'⟩ := hkeep w' hok
    have hheads' := hafter w' hends'
    have hsame := hheads'.sameEntries_iff db.heads
    split
    · rename_i hdiffer
      refine ⟨fun v hv => absurd hv (by simp), fun _ _ hmaterialized => ?_⟩
      rw [hsame.mpr hmaterialized] at hdiffer
      cases hdiffer
    · rename_i hequal
      refine ⟨fun v hv => ?_, fun _ _ _ => ⟨_, rfl⟩⟩
      cases hv
      exact ⟨⟨hverify, hinstalled⟩, hgoesOn.mp hcontinues, hsame.mp (by simpa using hequal), hheads',
        sortedHeads_sorted w'.states⟩

theorem full_spec (key : Option String) :
    ((inspectAuditChainAgainstCheckpoint digests collation db checkpoint key).valid = true ↔
      (verifyAuditCheckpoint digests checkpoint key = true ∧
        db.installationId = some checkpoint.installationId) ∧
      (∀ c, Linked digests.sha256 (chainRows collation db.log.rows c)) ∧
      Materialized db.heads (fun c => headOf (chainRows collation db.log.rows c))) ∧
    ((inspectAuditChainAgainstCheckpoint digests collation db checkpoint key).valid = true →
      Ends (fun c => headOf (chainRows collation db.log.rows c))
        (inspectAuditChainAgainstCheckpoint digests collation db checkpoint key).heads) := by
  unfold inspectAuditChainAgainstCheckpoint Materialized
  rw [checkAnchors_spec h.rooted, ← inspect_valid_iff]
  dsimp only
  by_cases hvalid : (inspectAuditChain digests.sha256 collation db.log.rows db.heads).valid = true
  case neg =>
    rw [if_pos (by simpa using hvalid)]
    exact ⟨iff_of_false hvalid fun hright => hvalid hright.2, fun hok => absurd hok hvalid⟩
  rw [if_neg (by simpa using hvalid)]
  split_ifs with hverify hinstalled
  · refine ⟨iff_of_false (by simp) fun hright => ?_, fun hok => (nomatch hok)⟩
    rw [hright.1.1] at hverify
    cases hverify
  · exact ⟨iff_of_false (by simp) fun hright => hinstalled hright.1.2, fun hok => (nomatch hok)⟩
  · refine ⟨iff_of_true hvalid ⟨⟨by simpa using hverify, not_not.mp hinstalled⟩, hvalid⟩, fun _ => ?_⟩
    exact (inspect_ends hvalid).1

end

theorem full_sorted (hvalid : (inspectAuditChainAgainstCheckpoint digests collation db checkpoint key).valid = true) :
    (inspectAuditChainAgainstCheckpoint digests collation db checkpoint key).heads.Pairwise fun a b =>
      (show Collated collation from a.chainId) ≤ (show Collated collation from b.chainId) := by
  unfold inspectAuditChainAgainstCheckpoint at hvalid ⊢
  dsimp only at hvalid ⊢
  by_cases hinspected : (inspectAuditChain digests.sha256 collation db.log.rows db.heads).valid = true
  case neg =>
    rw [if_pos (by simpa using hinspected)] at hvalid
    exact absurd hvalid hinspected
  have hsorted := inspect_sorted hinspected
  split_ifs
  · exact hsorted
  · exact hsorted
  · exact hsorted
  · cases checkAnchors db.log.rows checkpoint.heads <;> exact hsorted

/-! ## Where the largest anchor parts the rows -/

theorem TakenFrom.covers_iff (h : TakenFrom digests collation taken takenHeads checkpoint rows) (r : AuditRow) :
    checkpoint.covers r = true ↔ ∃ head, headOf (chainRows collation taken.rows r.event.chainId) =
      some head ∧ r.event.sequence ≤ head.lastSequence := by
  obtain ⟨hvalid, hheads, -⟩ := h.spec
  have hends := (inspect_ends hvalid).1
  rw [← hheads] at hends
  unfold Checkpoint.covers
  rw [any_eq_true]
  constructor
  · rintro ⟨x, hx, hcovers⟩
    simp only [Bool.and_eq_true, decide_eq_true_eq] at hcovers
    have hend := (hends.mem_iff x).mp hx
    rw [hcovers.1] at hend
    exact ⟨x.toHead, hend, hcovers.2⟩
  · rintro ⟨head, hend, hle⟩
    refine ⟨⟨r.event.chainId, head.lastSequence, head.lastLogId, head.lastHash⟩, (hends.mem_iff _).mpr hend, ?_⟩
    simp [hle]

section

variable (h : TakenFrom digests collation taken takenHeads checkpoint db.log.rows)
include h

section

variable (hparts : checkpoint.Parts db.log.rows)
include hparts

/-- Where the largest anchor parts the rows, a chain is what it was taken from and its tail. -/
theorem TakenFrom.chainRows_eq (c : String) : chainRows collation db.log.rows c =
    chainRows collation taken.rows c ++ chainRows collation (checkpoint.tail db.log.rows) c := by
  have htail : checkpoint.tail db.log.rows = db.log.rows.filter fun r => !checkpoint.covers r := by
    unfold Checkpoint.tail
    refine filter_congr fun r hr => ?_
    have hpart := hparts r hr
    cases hcovers : checkpoint.covers r with
    | true =>
      have hle := hpart.mp hcovers
      exact decide_eq_false (by omega)
    | false =>
      rw [hcovers] at hpart
      have hlt : ¬r.id ≤ maximumAnchorId checkpoint.heads := fun hle => (nomatch hpart.mpr hle)
      exact decide_eq_true (by omega)
  have hperm : db.log.rows.Perm (taken.rows ++ checkpoint.tail db.log.rows) := by
    rw [htail]
    exact (filter_append_perm checkpoint.covers db.log.rows).symm.trans (h.kept.append_right _)
  have hchain : (chainRows collation db.log.rows c).Perm
      (chainRows collation taken.rows c ++ chainRows collation (checkpoint.tail db.log.rows) c) := by
    have hsplit : (ofChain c db.log.rows).Perm (ofChain c taken.rows ++ ofChain c (checkpoint.tail db.log.rows)) := by
      rw [← ofChain_append]
      exact hperm.filter _
    exact (chainRows_perm _ c).trans (hsplit.trans
      ((chainRows_perm taken.rows c).append (chainRows_perm (checkpoint.tail db.log.rows) c)).symm)
  have hmem : ∀ {r}, r ∈ chainRows collation db.log.rows c → r ∈ db.log.rows ∧ r.event.chainId = c :=
    fun hr => mem_ofChain.mp ((chainRows_perm _ c).subset hr)
  have hunique : ∀ a b, a ∈ chainRows collation db.log.rows c →
      b ∈ chainRows collation taken.rows c ++ chainRows collation (checkpoint.tail db.log.rows) c →
      a.event.sequence ≤ b.event.sequence → b.event.sequence ≤ a.event.sequence → a = b := by
    intro a b ha hb hab hba
    obtain ⟨ha, hac⟩ := hmem ha
    obtain ⟨hb, hbc⟩ := hmem (hchain.mem_iff.mpr hb)
    refine inj_on_of_nodup_map db.log.sequences ha hb (Prod.ext ?_ (le_antisymm hab hba))
    exact hac.trans hbc.symm
  refine List.Perm.eq_of_pairwise hunique (chainRows_pairwise _ c) ?_ hchain
  rw [pairwise_append]
  refine ⟨chainRows_pairwise _ c, chainRows_pairwise _ c, fun a ha b hb => ?_⟩
  obtain ⟨ha, hac⟩ := mem_ofChain.mp ((chainRows_perm _ c).subset ha)
  obtain ⟨hb, hbc⟩ := mem_ofChain.mp ((chainRows_perm _ c).subset hb)
  -- `a` is covered and `b` is not: the head of their chain lies between
  have hcovered := (mem_filter.mp (h.kept.mem_iff.mpr ha)).2
  rw [htail] at hb
  have huncovered := (mem_filter.mp hb).2
  obtain ⟨head, hend, hle⟩ := (h.covers_iff a).mp hcovered
  by_contra hlt
  have hcovers : checkpoint.covers b = true := by
    refine (h.covers_iff b).mpr ⟨head, ?_, by omega⟩
    rw [hbc, ← hac]
    exact hend
  rw [hcovers] at huncovered
  cases huncovered

theorem TakenFrom.linked_iff : (∀ c, Linked digests.sha256 (chainRows collation db.log.rows c)) ↔
    GoesOn digests.sha256 collation taken.rows (checkpoint.tail db.log.rows) := by
  refine forall_congr' fun c => ?_
  have hlinked := (inspect_valid_iff.mp h.spec.1).1 c
  unfold Linked at hlinked ⊢
  rw [h.chainRows_eq hparts c, ChainScheme.linked_append, lastOf_eq]
  exact and_iff_right hlinked

theorem TakenFrom.endAfter_eq :
    endAfter collation taken.rows (checkpoint.tail db.log.rows) = fun c => headOf (chainRows collation db.log.rows c) := by
  funext c
  rw [h.chainRows_eq hparts c, headOf_append]
  rfl

end

end

theorem GoesOn.endAfter_sequence {tail : List AuditRow} (h : GoesOn sha256 collation taken.rows tail)
    (hvalid : (inspectAuditChain sha256 collation taken.rows takenHeads).valid = true) (c : String) :
    ((endAfter collation taken.rows tail c).getD emptyHead).lastSequence =
      ((ofChain c taken.rows).length : Int) + ((ofChain c tail).length : Int) := by
  have hlinked := h c
  have htaken := length_ofChain_eq hvalid c
  rw [htaken, ← (chainRows_perm tail c : (chainRows collation tail c).Perm _).length_eq, ← hlinked.last_seq]
  unfold endAfter ChainScheme.lastOf headOf
  cases (chainRows collation tail c).getLast? <;> rfl

/-- Two inspections that report the same heads have walked the same rows: the tail is what the
anchors do not cover. -/
theorem TakenFrom.parts (h : TakenFrom digests collation taken takenHeads checkpoint db.log.rows)
    (hgoesOn : GoesOn digests.sha256 collation taken.rows (checkpoint.tail db.log.rows))
    (hvalid : (inspectAuditChain digests.sha256 collation db.log.rows db.heads).valid = true)
    (hends : ∀ c, endAfter collation taken.rows (checkpoint.tail db.log.rows) c =
      headOf (chainRows collation db.log.rows c)) : checkpoint.Parts db.log.rows := by
  intro r hr
  have hcount := hgoesOn.endAfter_sequence h.spec.1 r.event.chainId
  rw [hends, ← length_ofChain_eq hvalid] at hcount
  -- the rows of the tail are not covered
  have huncovered : ∀ x ∈ ofChain r.event.chainId db.log.rows,
      maximumAnchorId checkpoint.heads < x.id → checkpoint.covers x = false := by
    intro x hx hlt
    obtain ⟨hxmem, hxchain⟩ := mem_ofChain.mp hx
    have htail : x ∈ chainRows collation (checkpoint.tail db.log.rows) r.event.chainId :=
      (chainRows_perm _ _).mem_iff.mpr (mem_ofChain.mpr ⟨mem_filter.mpr ⟨hxmem, by simpa using hlt⟩, hxchain⟩)
    have hseq := (hgoesOn r.event.chainId).seq_gt x htail
    by_contra hcovers
    obtain ⟨head, hend, hle⟩ := (h.covers_iff x).mp (by simpa using hcovers)
    rw [hxchain] at hend
    rw [hend] at hseq
    have hgt : head.lastSequence < x.event.sequence := hseq
    omega
  -- and there are as many of them as rows that are not covered
  have hlengths := length_eq_length_filter_add (l := ofChain r.event.chainId db.log.rows) checkpoint.covers
  have hkept := (h.kept.filter fun x => decide (x.event.chainId = r.event.chainId)).length_eq
  have hfilters : ((ofChain r.event.chainId db.log.rows).filter checkpoint.covers).length =
      (ofChain r.event.chainId taken.rows).length := by
    rw [ofChain, filter_comm]
    exact hkept
  have htail : ofChain r.event.chainId (checkpoint.tail db.log.rows) =
      ((ofChain r.event.chainId db.log.rows).filter fun x => !checkpoint.covers x).filter
        fun x => decide (maximumAnchorId checkpoint.heads < x.id) := by
    rw [filter_filter, ofChain, Checkpoint.tail, filter_comm]
    refine filter_congr fun x hx => ?_
    by_cases hlt : maximumAnchorId checkpoint.heads < x.id
    · simp [hlt, huncovered x hx hlt]
    · simp [hlt]
  rw [htail] at hcount
  have hall := length_filter_eq_length_iff.mp (show
    (((ofChain r.event.chainId db.log.rows).filter fun x => !checkpoint.covers x).filter
      fun x => decide (maximumAnchorId checkpoint.heads < x.id)).length = _ by omega)
  have hmem : r ∈ ofChain r.event.chainId db.log.rows := mem_ofChain.mpr ⟨hr, rfl⟩
  constructor
  · intro hcovers
    by_contra hlt
    have hnot := huncovered r hmem (by omega)
    rw [hcovers] at hnot
    cases hnot
  · intro hle
    by_contra hcovers
    have hlt := hall r (mem_filter.mpr ⟨hmem, by simpa using hcovers⟩)
    rw [decide_eq_true_iff] at hlt
    omega

/-- Over a database that still has the rows a checkpoint was taken from: where the largest anchor parts the rows, the
incremental inspection passes just where the full one does, with the same heads; where it does not, they never report the same
heads. -/
theorem incremental_agrees (digests : Digests) (collation : Collation) (taken : AuditTable)
    (takenHeads : ChainHeads) (db : AuditDatabase) (checkpoint : Checkpoint) (key : Option String)
    (h : TakenFrom digests collation taken takenHeads checkpoint db.log.rows) : (checkpoint.Parts db.log.rows →
      ((∃ v, inspectAuditChainIncremental digests collation db checkpoint key = .ok v) ↔
        (inspectAuditChainAgainstCheckpoint digests collation db checkpoint key).valid = true) ∧
      ∀ v, inspectAuditChainIncremental digests collation db checkpoint key = .ok v →
        v.heads.Perm (inspectAuditChainAgainstCheckpoint digests collation db checkpoint key).heads ∧
        (collation = .codePoints → v.heads = (inspectAuditChainAgainstCheckpoint digests collation db checkpoint key).heads)) ∧
    (¬checkpoint.Parts db.log.rows → ∀ v, inspectAuditChainIncremental digests collation db checkpoint key = .ok v →
        (inspectAuditChainAgainstCheckpoint digests collation db checkpoint key).valid = true → ¬v.heads.Perm
          (inspectAuditChainAgainstCheckpoint digests collation db checkpoint key).heads) := by
  obtain ⟨hkeep, hpass⟩ := incremental_spec h key
  obtain ⟨hfull, hfullEnds⟩ := full_spec h key
  refine ⟨fun hparts => ?_, fun hparts v hok hvalid hheads => ?_⟩
  · have hends := h.endAfter_eq hparts
    rw [h.linked_iff hparts, ← hends] at hfull
    rw [← hends] at hfullEnds
    have hvalid : ∀ v, inspectAuditChainIncremental digests collation db checkpoint key = .ok v →
        (inspectAuditChainAgainstCheckpoint digests collation db checkpoint key).valid = true := by
      intro v hok
      obtain ⟨hgenuine, hgoesOn, hmaterialized, -, -⟩ := hkeep v hok
      exact hfull.mpr ⟨hgenuine, hgoesOn, hmaterialized⟩
    refine ⟨⟨fun ⟨v, hok⟩ => hvalid v hok, fun hok => ?_⟩, fun v hok => ?_⟩
    · obtain ⟨hgenuine, hgoesOn, hmaterialized⟩ := hfull.mp hok
      exact hpass hgenuine hgoesOn hmaterialized
    · obtain ⟨-, -, -, hvEnds, hvSorted⟩ := hkeep v hok
      have hperm := (hvEnds.perm_iff (hfullEnds (hvalid v hok))).mpr fun _ => rfl
      refine ⟨hperm, fun hcodePoints => hvEnds.eq_of_perm hperm hvSorted ?_⟩
      subst hcodePoints
      exact full_sorted (hvalid v hok)
  · obtain ⟨-, hgoesOn, -, hvEnds, -⟩ := hkeep v hok
    have hsame := (hvEnds.perm_iff (hfullEnds hvalid)).mp hheads
    obtain ⟨-, hlinked, hmaterialized⟩ := hfull.mp hvalid
    exact hparts (h.parts hgoesOn (inspect_valid_iff.mpr ⟨hlinked, hmaterialized⟩) hsame)

end

/-! ## Two logins -/

section

variable (digests : Digests)

def oneLogin : AuditTables :=
  insertAuditRow digests.sha256 ⟨[], .empty⟩ (sampleLogin "org-b") "" 2

variable (id : Int)

def twoLogins : AuditTables :=
  insertAuditRow digests.sha256 (oneLogin digests) (sampleLogin "org-a") "" id

def loginRow (organizationId : String) : AuditRow :=
  ⟨id, (sampleLogin organizationId).event "" 1, emptyAuditHash,
    entryHash digests.sha256 emptyAuditHash ((sampleLogin organizationId).event "" 1)⟩

theorem oneLogin_log : (oneLogin digests).log = [loginRow digests 2 "org-b"] := rfl

theorem twoLogins_log : (twoLogins digests id).log = [loginRow digests 2 "org-b", loginRow digests id "org-a"] := rfl

def oneLoginTable : AuditTable where
  rows := (oneLogin digests).log
  ids := by simp [oneLogin_log]
  id_pos := by simp [oneLogin_log, loginRow]
  sequences := by simp [oneLogin_log]
  chain_ne := by simp [oneLogin_log, loginRow, sampleLogin, AuditEntry.event, AuditEntry.chainId]
  hash_length := by simp [oneLogin_log, loginRow, entryHash, digests.length_sha256]

def twoLoginsTable (hpos : 0 < id) (hne : id ≠ 2) : AuditTable where
  rows := (twoLogins digests id).log
  ids := by simp [twoLogins_log, loginRow, hne.symm]
  id_pos := by simp [twoLogins_log, loginRow, hpos]
  sequences := by simp [twoLogins_log, loginRow, sampleLogin, AuditEntry.event, AuditEntry.chainId]
  chain_ne := by simp [twoLogins_log, loginRow, sampleLogin, AuditEntry.event, AuditEntry.chainId]
  hash_length := by simp [twoLogins_log, loginRow, entryHash, digests.length_sha256]

theorem oneLogin_valid : (inspectAuditChain digests.sha256 .codePoints (oneLogin digests).log
    (oneLogin digests).heads).valid = true :=
  (Appended.start.insert (sampleLogin "org-b") "" 2 : Appended digests.sha256 _).anchored.valid

theorem twoLogins_valid : (inspectAuditChain digests.sha256 .codePoints (twoLogins digests id).log
    (twoLogins digests id).heads).valid = true :=
  ((Appended.start.insert (sampleLogin "org-b") "" 2).insert (sampleLogin "org-a") "" id :
    Appended digests.sha256 _).anchored.valid

def loginPayload : Checkpoint :=
  let verification := inspectAuditChain digests.sha256 .codePoints (oneLogin digests).log (oneLogin digests).heads
  ⟨"biddingflow-audit-checkpoint", 3, "install-1", "2026-01-01T09:00:00", verification.rowCount,
    verification.heads, verification.lastHash, "", none⟩

def loginCheckpoint : Checkpoint :=
  { loginPayload digests with digest := digests.sha256 (loginPayload digests).material }

def twoLoginsDatabase (hpos : 0 < id) (hne : id ≠ 2) : AuditDatabase :=
  ⟨twoLoginsTable digests id hpos hne, (twoLogins digests id).heads, some "install-1"⟩

theorem loginCheckpoint_built : buildAuditCheckpoint digests (some "install-1") none
    "2026-01-01T09:00:00" (inspectAuditChain digests.sha256 .codePoints (oneLogin digests).log
      (oneLogin digests).heads) = some (loginCheckpoint digests) := by
  unfold buildAuditCheckpoint
  rw [oneLogin_valid]
  have hstrip : pyStrip "install-1" ≠ "" := by decide
  simp only [Bool.not_true, Bool.false_eq_true, if_false, if_neg hstrip]
  rfl

theorem loginCheckpoint_verified : verifyAuditCheckpoint digests (loginCheckpoint digests) none = true := by
  have hmaterial : (loginCheckpoint digests).material = (loginPayload digests).material := rfl
  unfold verifyAuditCheckpoint
  rw [hmaterial]
  simp [hmacKey, loginCheckpoint, loginPayload]

theorem loginCheckpoint_heads : (loginCheckpoint digests).heads =
    [⟨"org-b", 1, some 2, (loginRow digests 2 "org-b").entryHash⟩] := by
  have hends := (inspect_ends (oneLogin_valid digests)).1
  have hrows : ∀ c, chainRows .codePoints (oneLogin digests).log c = ofChain c [loginRow digests 2 "org-b"] := fun _ => rfl
  have hsingle : Ends (fun c => headOf (chainRows .codePoints (oneLogin digests).log c))
      [⟨"org-b", 1, some 2, (loginRow digests 2 "org-b").entryHash⟩] := by
    refine ⟨nodup_singleton _, fun h => ?_⟩
    rw [mem_singleton, hrows]
    have hself : (loginRow digests 2 "org-b").event.chainId = "org-b" := rfl
    by_cases hc : h.chainId = "org-b"
    · rw [hc, ofChain_singleton hself]
      constructor
      · rintro rfl
        rfl
      · intro hend
        have hhead : (loginRow digests 2 "org-b").toHead = h.toHead := Option.some.inj hend
        cases h
        simp only [HeadSummary.toHead, AuditRow.toHead, ChainHead.mk.injEq] at hhead
        simp only [HeadSummary.mk.injEq]
        exact ⟨hc, hhead.1.symm, hhead.2.1.symm, hhead.2.2.symm⟩
    · rw [ofChain_singleton_of_ne fun heq => hc (heq.symm.trans hself)]
      exact iff_of_false (fun heq => hc (congrArg HeadSummary.chainId heq)) (by simp [headOf])
  exact perm_singleton.mp ((hends.perm_iff hsingle).mpr fun _ => rfl)

theorem loginCheckpoint_taken (hpos : 0 < id) (hne : id ≠ 2) :
    TakenFrom digests .codePoints (oneLoginTable digests) (oneLogin digests).heads
      (loginCheckpoint digests) (twoLoginsDatabase digests id hpos hne).log.rows where
  built := ⟨_, _, _, loginCheckpoint_built digests⟩
  kept := by
    have hrows : (twoLoginsDatabase digests id hpos hne).log.rows =
        [loginRow digests 2 "org-b", loginRow digests id "org-a"] := rfl
    have hfilter : [loginRow digests 2 "org-b", loginRow digests id "org-a"].filter
        (loginCheckpoint digests).covers = [loginRow digests 2 "org-b"] := by
      simp [Checkpoint.covers, loginCheckpoint_heads, loginRow, sampleLogin, AuditEntry.event, AuditEntry.chainId]
    rw [hrows, hfilter]
    exact List.Perm.refl _

theorem twoLogins_full (hpos : 0 < id) (hne : id ≠ 2) :
    (inspectAuditChainAgainstCheckpoint digests .codePoints (twoLoginsDatabase digests id hpos hne)
      (loginCheckpoint digests) none).valid = true :=
  (full_spec (loginCheckpoint_taken digests id hpos hne) none).1.mpr
    ⟨⟨loginCheckpoint_verified digests, rfl⟩, inspect_valid_iff.mp (twoLogins_valid digests id)⟩

theorem loginCheckpoint_tail (hpos : 0 < id) (hne : id ≠ 2) :
    (loginCheckpoint digests).tail (twoLoginsDatabase digests id hpos hne).log.rows =
      if 2 < id then [loginRow digests id "org-a"] else [] := by
  have hrows : (twoLoginsDatabase digests id hpos hne).log.rows =
      [loginRow digests 2 "org-b", loginRow digests id "org-a"] := rfl
  have hmaximum : maximumAnchorId (loginCheckpoint digests).heads = 2 := by
    rw [loginCheckpoint_heads]
    rfl
  unfold Checkpoint.tail
  rw [hmaximum, hrows]
  by_cases h : 2 < id <;> simp [loginRow, h]

end

def loginSha256 (text : String) : String :=
  if text = "[\x7b\"chainId\":\"org-b\",\"entryHash\":" ++
      "\"93e187053f080980c45e22fed1d4dc1d270ccc8082c58df0c7985db80da1ed31\"," ++ "\"id\":2,\"sequence\":1\x7d]" then
    "807f2fda40e95277162e4d5ee72ccff378f6f85fe0fd2ed5a18de0597135ab18"
  else if text = "\x7b\"aggregateHash\":" ++ "\"807f2fda40e95277162e4d5ee72ccff378f6f85fe0fd2ed5a18de0597135ab18\"," ++
      "\"createdAt\":\"2026-01-01T09:00:00\",\"format\":\"biddingflow-audit-checkpoint\"," ++
      "\"heads\":[\x7b\"chainId\":\"org-b\",\"entryHash\":" ++
      "\"93e187053f080980c45e22fed1d4dc1d270ccc8082c58df0c7985db80da1ed31\"," ++
      "\"id\":2,\"sequence\":1\x7d],\"installationId\":\"install-1\",\"rowCount\":1,\"version\":3\x7d" then
    "cc0c93b43b941593581cb38bf8107e78f56449e5d31f9011eb99fbf27382b886"
  else if text = "[\x7b\"chainId\":\"org-a\",\"entryHash\":" ++
      "\"85803c150df4cd10e8fc8b209ddfe6585ab0513714ffd735f95f2edf421f1812\"," ++
      "\"id\":1,\"sequence\":1\x7d,\x7b\"chainId\":\"org-b\",\"entryHash\":" ++
      "\"93e187053f080980c45e22fed1d4dc1d270ccc8082c58df0c7985db80da1ed31\"," ++ "\"id\":2,\"sequence\":1\x7d]" then
    "3c53450fa0a34de673bab2d9937afd0f01f01d3e405c18fb80c85a5d8e5effc8"
  else if text = "[\x7b\"chainId\":\"org-a\",\"entryHash\":" ++
      "\"85803c150df4cd10e8fc8b209ddfe6585ab0513714ffd735f95f2edf421f1812\"," ++
      "\"id\":3,\"sequence\":1\x7d,\x7b\"chainId\":\"org-b\",\"entryHash\":" ++
      "\"93e187053f080980c45e22fed1d4dc1d270ccc8082c58df0c7985db80da1ed31\"," ++ "\"id\":2,\"sequence\":1\x7d]" then
    "f9ce74ec856016c8fcfae4110e5ef9604bcb25255dca4f08cb40a1c8c8a47a90"
  else if (sampleSha256 text).length = 64 then sampleSha256 text
  else emptyAuditHash

theorem length_loginSha256 (text : String) : (loginSha256 text).length = 64 := by
  unfold loginSha256
  split_ifs with _ _ _ _ hlength
  · decide
  · decide
  · decide
  · decide
  · exact hlength
  · decide

def loginDigests : Digests := ⟨loginSha256, fun key text => key ++ text, length_loginSha256⟩

theorem incremental_agrees_login : ∃ v, inspectAuditChainIncremental loginDigests .codePoints
    (twoLoginsDatabase loginDigests 3 (by decide) (by decide)) (loginCheckpoint loginDigests) none = .ok v := by
  have htaken := loginCheckpoint_taken loginDigests 3 (by decide) (by decide)
  have hparts : (loginCheckpoint loginDigests).Parts (twoLoginsDatabase loginDigests 3 (by decide) (by decide)).log.rows := by
    intro r hr
    have hrows : r = loginRow loginDigests 2 "org-b" ∨ r = loginRow loginDigests 3 "org-a" := by
      simpa [twoLoginsDatabase, twoLoginsTable, twoLogins_log] using hr
    cases hrows with
    | inl h => simp [h, Checkpoint.covers, loginCheckpoint_heads, loginRow, sampleLogin,
        AuditEntry.event, AuditEntry.chainId, maximumAnchorId, anchorIds]
    | inr h => simp [h, Checkpoint.covers, loginCheckpoint_heads, loginRow, sampleLogin,
        AuditEntry.event, AuditEntry.chainId, maximumAnchorId, anchorIds]
  have hagree := (incremental_agrees loginDigests .codePoints (oneLoginTable loginDigests)
    (oneLogin loginDigests).heads (twoLoginsDatabase loginDigests 3 (by decide) (by decide))
    (loginCheckpoint loginDigests) none htaken).1 hparts
  exact hagree.1.mpr (twoLogins_full loginDigests 3 (by decide) (by decide))

/-- A login whose row got the smaller id and is committed after the checkpoint was taken: the full
inspection passes, and the incremental one does not see the row. -/
theorem smaller_id_missed : TakenFrom loginDigests .codePoints (oneLoginTable loginDigests) (oneLogin loginDigests).heads
      (loginCheckpoint loginDigests) (twoLoginsDatabase loginDigests 1 (by decide) (by decide)).log.rows ∧
    (inspectAuditChainAgainstCheckpoint loginDigests .codePoints
      (twoLoginsDatabase loginDigests 1 (by decide) (by decide)) (loginCheckpoint loginDigests) none).valid = true ∧
    ¬∃ v, inspectAuditChainIncremental loginDigests .codePoints
      (twoLoginsDatabase loginDigests 1 (by decide) (by decide)) (loginCheckpoint loginDigests) none = .ok v := by
  have htaken := loginCheckpoint_taken loginDigests 1 (by decide) (by decide)
  refine ⟨htaken, twoLogins_full loginDigests 1 (by decide) (by decide), ?_⟩
  rintro ⟨v, hok⟩
  obtain ⟨-, -, hmaterialized, -⟩ := (incremental_spec htaken none).1 v hok
  rw [loginCheckpoint_tail, if_neg (by decide)] at hmaterialized
  have hstored : (twoLoginsDatabase loginDigests 1 (by decide) (by decide)).heads.get? "org-a" =
      some (loginRow loginDigests 1 "org-a").toHead := rfl
  have hend := hmaterialized "org-a"
  rw [hstored] at hend
  cases hend with
  | inl hempty => exact absurd (congrArg (Option.map ChainHead.lastSequence) hempty) (by decide)
  | inr hmissed => cases hmissed

end Bidding.Audit
