import Bidding.Usage.Conservation

/-!
# Runs of the usage ledger

The loop of a reservation keeps the counters and its own copy of them in step. Over any sequence of
calls the counters then stay conserved, and a reservation leaves the state it is in by a few moves
only.
-/

namespace Bidding.Usage

open Foundations List

variable {t : PyText} {collation : Collation} {s s' : UsageTables} {r : Reservation} {owner : UsageOwner}

/-! ## The reservation loop -/

theorem Conserved.resume (h : Conserved s) (hr : r ∈ s.reservations)
    (hstate : r.state = .released) {g : Grant} (hg : g ∈ s.grants) (hfree : g.reserved < g.remaining)
    (ctx : ReserveContext) (ledger : List LedgerEntry) : Conserved ⟨updateAt Grant.id g.id Grant.reserveOne s.grants,
      updateAt Reservation.id r.id (Reservation.inState .released (ctx.again g.id)) s.reservations, ledger⟩ := by
  have hb := h.balanced g hg
  have hagain : Reservation.inState .released (ctx.again g.id) r = ctx.again g.id r :=
    Reservation.inState_of_eq hstate
  have hshare : ∀ grantId state, (ctx.again g.id r).share grantId state =
      if g.id = grantId ∧ .reserved = state then 1 else 0 := fun grantId state =>
    share_of_state (r := ctx.again g.id r) rfl grantId state
  refine h.change hr (Reservation.inState_id (ReserveContext.again_id ctx _) _) hg Grant.reserveOne_id ?_ ?_ ?_ ?_ ?_ ledger
  · rw [hagain]
    rfl
  · intro grantId hne state hother
    rw [hagain, hshare, share_of_state hstate, if_neg fun hand => hother hand.2.symm, if_neg fun hand => hne hand.1.symm]
  · have hnonneg := hb.reserved_nonneg
    have hle := hb.remaining_le
    simp only [Grant.reserveOne]
    omega
  · rw [hagain, hshare, share_of_state hstate]
    simp [Grant.reserveOne]
  · rw [hagain, hshare, share_of_state hstate]
    simp [Grant.reserveOne]

def Resumes (owner : UsageOwner) (candidates : List SourceRevisionCandidate) (r r' : Reservation) : Prop :=
  r' = r ∨ (r.state = .released ∧ r'.state = .reserved ∧ r'.id = r.id ∧ r'.owner = r.owner ∧
    r'.candidate = r.candidate ∧ r.owner = owner ∧ r.candidate ∈ candidates)

def AllResume (owner : UsageOwner) (candidates : List SourceRevisionCandidate) (s s' : UsageTables) : Prop :=
  ∀ r ∈ s.reservations, ∃ r' ∈ s'.reservations, Resumes owner candidates r r'

theorem Resumes.trans {a b : List SourceRevisionCandidate} {r r' r'' : Reservation}
    (h : Resumes owner a r r') (h' : Resumes owner b r' r'') : Resumes owner (a ++ b) r r'' := by
  rcases h with rfl | ⟨h1, h2, h3, h4, h5, h6, h7⟩
  · rcases h' with rfl | ⟨h1, h2, h3, h4, h5, h6, h7⟩
    · exact .inl rfl
    · exact .inr ⟨h1, h2, h3, h4, h5, h6, mem_append_right _ h7⟩
  · rcases h' with rfl | ⟨hreleased, -⟩
    · exact .inr ⟨h1, h2, h3, h4, h5, h6, mem_append_left _ h7⟩
    -- A reservation taken again is not released.
    · exact absurd (hreleased.symm.trans h2) (by simp)

/-- The state of the loop: its lines are the counters of the tables, and the released rows it holds
are still as they were found. -/
structure LoopReady (ctx : ReserveContext) (s : UsageTables) (lines : List GrantLine) (pending : List Pending) : Prop where
  conserved : Conserved s
  counters : ∀ line ∈ lines, ∃ g ∈ s.grants, g.id = line.id ∧ g.remaining = line.remaining ∧ g.reserved = line.reserved
  lineIds : (lines.map GrantLine.id).Nodup
  released : ∀ item ∈ pending, ∀ old, item.2 = some old →
    old ∈ s.reservations ∧ old.state = .released ∧ old.owner = ctx.owner ∧ old.candidate = item.1
  distinct : (pending.map Prod.fst).Nodup

variable {ctx : ReserveContext} {line : GrantLine} {lines others : List GrantLine} {item : Pending}
  {rest : List Pending} {out : List ReservationPayload} {α : Type} {candidates : List CandidateInput} {c : SourceRevisionCandidate} {id : String} {command : UsageCommand}

theorem LoopReady.sublist (h : LoopReady ctx s lines rest) (hsub : others.Sublist lines) : LoopReady ctx s others rest where
  conserved := h.conserved
  counters := fun line hline => h.counters line (hsub.subset hline)
  lineIds := h.lineIds.sublist (hsub.map _)
  released := h.released
  distinct := h.distinct

theorem counters_reserveOne (hcounters : ∀ line' ∈ line :: others,
      ∃ g ∈ s.grants, g.id = line'.id ∧ g.remaining = line'.remaining ∧ g.reserved = line'.reserved)
    (hids : ((line :: others).map GrantLine.id).Nodup) : ∀ line' ∈ { line with reserved := line.reserved + 1 } :: others,
      ∃ g ∈ updateAt Grant.id line.id Grant.reserveOne s.grants, g.id = line'.id ∧
        g.remaining = line'.remaining ∧ g.reserved = line'.reserved := by
  intro line' hline'
  rcases mem_cons.mp hline' with rfl | hline'
  · obtain ⟨g, hg, hid, hremaining, hreserved⟩ := hcounters line mem_cons_self
    refine ⟨g.reserveOne, mem_updateAt.mpr (.inl ⟨g, hg, hid, rfl⟩), hid, hremaining, ?_⟩
    simp [Grant.reserveOne, hreserved]
  · obtain ⟨g, hg, hid, hcounters⟩ := hcounters line' (mem_cons_of_mem _ hline')
    have hne : g.id ≠ line.id := by
      intro heq
      refine (nodup_cons.mp hids).1 ?_
      exact mem_map.mpr ⟨line', hline', hid.symm.trans heq⟩
    exact ⟨g, mem_updateAt_of_ne hg hne, hid, hcounters⟩

/-- One reservation keeps the loop ready for the next item. -/
theorem reserveOne_step {out : ReservationPayload} (h : LoopReady ctx s (line :: others) (item :: rest))
    (hfree : line.reserved < line.remaining) (hone : reserveOne ctx s line item = .ok (s', out)) :
    LoopReady ctx s' ({ line with reserved := line.reserved + 1 } :: others) rest ∧
      AllResume ctx.owner [item.1] s s' := by
  obtain ⟨g, hg, hgid, hremaining, hreserved⟩ := h.counters line mem_cons_self
  have hgfree : g.reserved < g.remaining := by omega
  obtain ⟨s₁, hgrant, hplace⟩ := bind_eq_ok.mp hone
  obtain ⟨⟨s₂, id⟩, hplaced, hentry⟩ := bind_eq_ok.mp hplace
  obtain ⟨s₃, hadd, hout⟩ := map_eq_ok.mp hentry
  obtain rfl := congrArg Prod.fst hout
  obtain rfl := updateGrant_eq hgrant
  obtain rfl := addEntry_eq hadd
  have hlines := counters_reserveOne h.counters h.lineIds
  have hlineIds : (({ line with reserved := line.reserved + 1 } :: others).map GrantLine.id).Nodup :=
    h.lineIds
  have hdistinct := nodup_cons.mp h.distinct
  unfold placeReservation at hplaced
  split at hplaced
  · rename_i old hold
    obtain ⟨hmem, hstate, howner, hcandidate⟩ := h.released item mem_cons_self old hold
    obtain rfl := congrArg Prod.fst (Except.ok.inj hplaced)
    have hagain : Reservation.inState .released (ctx.again line.id) old = ctx.again line.id old :=
      Reservation.inState_of_eq hstate
    refine ⟨⟨?_, hlines, hlineIds, ?_, hdistinct.2⟩, ?_⟩
    · simp only [UsageTables.updateReservation, ← hgid]
      exact h.conserved.resume hmem hstate hg hgfree ctx _
    · intro item' hitem' old' hold'
      obtain ⟨hmem', hstate', howner', hcandidate'⟩ :=
        h.released item' (mem_cons_of_mem _ hitem') old' hold'
      refine ⟨mem_updateAt_of_ne hmem' fun hid => hdistinct.1 ?_, hstate', howner', hcandidate'⟩
      -- Two candidates do not share a reservation.
      have hsame := inj_on_of_nodup_map h.conserved.reservationIds hmem' hmem hid
      exact mem_map.mpr ⟨item', hitem', by rw [← hcandidate', hsame, hcandidate]⟩
    · intro r hr
      refine exists_updateAt (R := Resumes ctx.owner [item.1]) (fun r => .inl rfl) ?_ hr
      intro r₀ hr₀ hid
      obtain rfl := inj_on_of_nodup_map h.conserved.reservationIds hr₀ hmem hid
      rw [hagain]
      exact .inr ⟨hstate, rfl, rfl, rfl, rfl, howner, by simp [hcandidate]⟩
  · obtain ⟨s₄, hinsert, hpair⟩ := map_eq_ok.mp hplaced
    obtain rfl := congrArg Prod.fst hpair
    unfold UsageTables.insertReservation at hinsert
    split at hinsert
    · rename_i hfresh
      cases hinsert
      refine ⟨⟨?_, hlines, hlineIds, ?_, hdistinct.2⟩, ?_⟩
      · simp only [← hgid]
        exact h.conserved.append (r := ctx.first g.id item.1) (rowAt_eq_none.mp hfresh.1) hg rfl rfl hgfree _
      · intro item' hitem' old' hold'
        obtain ⟨hmem', hrest'⟩ := h.released item' (mem_cons_of_mem _ hitem') old' hold'
        exact ⟨mem_append_left _ hmem', hrest'⟩
      · intro r hr
        exact ⟨r, mem_append_left _ hr, .inl rfl⟩
    · exact absurd hinsert (by simp)

theorem reservePending_spec {pending : List Pending}
    (h : LoopReady ctx s lines pending) (hrun : reservePending ctx pending lines s = .ok (s', out)) :
    Conserved s' ∧ AllResume ctx.owner (pending.map Prod.fst) s s' := by
  induction pending generalizing s lines out with
  | nil =>
    obtain rfl := congrArg Prod.fst (Except.ok.inj hrun)
    exact ⟨h.conserved, fun r hr => ⟨r, hr, .inl rfl⟩⟩
  | cons item rest ih =>
    have hsub := dropWhile_sublist (l := lines) fun line : GrantLine => decide (line.remaining - line.reserved ≤ 0)
    have hhead := List.head?_dropWhile_not (fun line : GrantLine => decide (line.remaining - line.reserved ≤ 0)) lines
    rw [reservePending] at hrun
    split at hrun
    · obtain rfl := congrArg Prod.fst (Except.ok.inj hrun)
      exact ⟨h.conserved, fun r hr => ⟨r, hr, .inl rfl⟩⟩
    rename_i line others hdrop
    rw [hdrop] at hsub hhead
    obtain ⟨⟨s₁, one⟩, hone, hrest⟩ := bind_eq_ok.mp hrun
    obtain ⟨⟨s₂, more⟩, hmore, hout⟩ := map_eq_ok.mp hrest
    obtain rfl := congrArg Prod.fst hout
    have hfree : line.reserved < line.remaining := by
      have hpositive : ¬ line.remaining - line.reserved ≤ 0 := by simpa using hhead
      omega
    obtain ⟨hready, hfirst⟩ := reserveOne_step (h.sublist hsub) hfree hone
    obtain ⟨hconserved, hlast⟩ := ih hready hmore
    refine ⟨hconserved, fun r hr => ?_⟩
    obtain ⟨r', hr', hmove⟩ := hfirst r hr
    obtain ⟨r'', hr'', hmove'⟩ := hlast r' hr'
    exact ⟨r'', hr'', hmove.trans hmove'⟩

/-! ## Reserving -/

theorem distinct_nodup [DecidableEq α] (l : List α) : (distinct l).Nodup := by
  refine foldl_inv _ List.Nodup l (fun seen a _ hseen => ?_) nodup_nil
  split
  · exact hseen
  rename_i hnew
  rw [nodup_append]
  refine ⟨hseen, by simp, ?_⟩
  rintro b hb c hc rfl
  obtain rfl : b = a := by simpa using hc
  exact hnew hb

theorem mem_of_mem_distinct [DecidableEq α] {l : List α} {a : α} (h : a ∈ distinct l) : a ∈ l := by
  refine foldl_inv (fun seen b => if b ∈ seen then seen else seen ++ [b]) (fun seen => ∀ b ∈ seen, b ∈ l)
    l (fun seen b hb hseen => ?_) (by simp) a h
  split
  · exact hseen
  intro c hc
  rcases mem_append.mp hc with hc | hc
  · exact hseen c hc
  · obtain rfl : c = b := by simpa using hc
    exact hb

theorem mem_of_mapM_make {made : List SourceRevisionCandidate}
    (h : candidates.mapM (CandidateInput.make t) = .ok made) (hc : c ∈ made) : ∃ input ∈ candidates, input.make t = .ok c := by
  induction candidates generalizing made with
  | nil =>
    obtain rfl : made = [] := (Except.ok.inj h).symm
    cases hc
  | cons input rest ih =>
    rw [mapM_cons] at h
    obtain ⟨c₀, hmake, hrest⟩ := bind_eq_ok.mp h
    obtain ⟨made', hmade', hcons⟩ := bind_eq_ok.mp hrest
    obtain rfl : c₀ :: made' = made := Except.ok.inj hcons
    rcases mem_cons.mp hc with rfl | hc
    · exact ⟨input, mem_cons_self, hmake⟩
    · obtain ⟨input', hinput', hmake'⟩ := ih hmade' hc
      exact ⟨input', mem_cons_of_mem _ hinput', hmake'⟩

theorem listMissing_spec {normalized : List SourceRevisionCandidate}
    (h : listMissingSourceRevisions t candidates = .ok normalized) :
    normalized.Nodup ∧ ∀ c ∈ normalized, ∃ input ∈ candidates, input.make t = .ok c := by
  obtain ⟨made, hmade, rfl⟩ := map_eq_ok.mp h
  exact ⟨distinct_nodup made, fun c hc => mem_of_mapM_make hmade (mem_of_mem_distinct hc)⟩

theorem findReservation_some
    (h : s.findReservation owner c = some r) : r ∈ s.reservations ∧ r.owner = owner ∧ r.candidate = c := by
  have hmatch := find?_some h
  exact ⟨mem_of_find?_eq_some h, of_decide_eq_true hmatch⟩

theorem pendingOf_spec (owner : UsageOwner) {candidates : List SourceRevisionCandidate} (hnodup : candidates.Nodup) :
    ((pendingOf s owner candidates).map Prod.fst).Nodup ∧
      ∀ item ∈ pendingOf s owner candidates, item.1 ∈ candidates ∧ ∀ old, item.2 = some old →
        old ∈ s.reservations ∧ old.state = .released ∧ old.owner = owner ∧ old.candidate = item.1 := by
  refine ⟨?_, fun item hitem => ?_⟩
  · have hsub : ((pendingOf s owner candidates).map Prod.fst).Sublist
        ((candidates.map fun c => (c, s.findReservation owner c)).map Prod.fst) :=
      filter_sublist.map _
    have hfst : (candidates.map fun c => (c, s.findReservation owner c)).map Prod.fst = candidates := by
      rw [map_map]
      exact map_id _
    exact (hfst ▸ hnodup).sublist hsub
  · obtain ⟨hmem, hfree⟩ := mem_filter.mp hitem
    obtain ⟨c, hc, rfl⟩ := mem_map.mp hmem
    refine ⟨hc, fun old hold => ?_⟩
    obtain ⟨hr, howner, hcandidate⟩ := findReservation_some hold
    refine ⟨hr, ?_, howner, hcandidate⟩
    simp only at hold
    cases hstate : old.state <;> simp [hold, Reservation.isHeld, hstate] at hfree ⊢

theorem lockAvailableGrants_spec (h : Conserved s) (owner : UsageOwner) (now : Int) :
    ((lockAvailableGrants collation s owner now).map GrantLine.id).Nodup ∧
      ∀ line ∈ lockAvailableGrants collation s owner now, ∃ g ∈ s.grants,
        g.id = line.id ∧ g.remaining = line.remaining ∧ g.reserved = line.reserved := by
  refine ⟨?_, fun line hline => ?_⟩
  · rw [lockAvailableGrants, map_map]
    have hperm := perm_insertionSort (fun a b : Grant => a.rank collation ≤ b.rank collation)
      (s.grants.filter fun g => g.owner = owner ∧ now < g.expiresAt ∧ g.reserved < g.remaining)
    exact (hperm.map _).nodup_iff.mpr (h.grantIds.sublist (filter_sublist.map Grant.id))
  · obtain ⟨g, hg, rfl⟩ := mem_map.mp hline
    rw [mem_insertionSort] at hg
    exact ⟨g, (mem_filter.mp hg).1, rfl, rfl, rfl⟩

theorem reserve_spec (h : Conserved s)
    {jobKey : Scalar} {policyKind : String} {leaseSeconds now later : Int}
    {newId : SourceRevisionCandidate → String}
    (hrun : reserveSourceFetchBatch t collation s owner candidates jobKey policyKind leaseSeconds now later
      newId = .ok (s', out)) :
    Conserved s' ∧ ∃ normalized, (∀ c ∈ normalized, ∃ input ∈ candidates, input.make t = .ok c) ∧
      AllResume owner normalized s s' := by
  unfold reserveSourceFetchBatch at hrun
  split at hrun
  · exact absurd hrun (by simp)
  obtain ⟨normalized, hlist, hreserve⟩ := bind_eq_ok.mp hrun
  obtain ⟨hnodup, hmade⟩ := listMissing_spec hlist
  generalize hctx : ReserveContext.mk owner jobKey.orEmptyText (later + max 60 leaseSeconds) newId = ctx
    at hreserve
  have howner : ctx.owner = owner := by rw [← hctx]
  unfold reserveNormalized at hreserve
  split at hreserve
  · obtain rfl := congrArg Prod.fst (Except.ok.inj hreserve)
    exact ⟨h, normalized, hmade, fun r hr => ⟨r, hr, .inl rfl⟩⟩
  split at hreserve
  · exact absurd hreserve (by simp)
  split at hreserve
  · exact absurd hreserve (by simp)
  simp only at hreserve
  split at hreserve
  · exact absurd hreserve (by simp)
  obtain ⟨⟨s₁, done⟩, hloop, hout⟩ := map_eq_ok.mp hreserve
  obtain rfl := congrArg Prod.fst hout
  rw [howner] at hloop
  obtain ⟨hpending, holds⟩ := pendingOf_spec (s := s) owner hnodup
  obtain ⟨hlines, hcounters⟩ := @lockAvailableGrants_spec collation s h owner now
  generalize hchosen : (if policyKind = "process_affordable_in_stable_order" then _ else _) = chosen at hloop
  have hsub : chosen.Sublist (pendingOf s owner normalized) := by
    rw [← hchosen]
    split
    · exact take_sublist _ _
    · exact List.Sublist.refl _
  have hready : LoopReady ctx s (lockAvailableGrants collation s owner now) chosen :=
    ⟨h, hcounters, hlines, fun item hitem => howner ▸ (holds item (hsub.subset hitem)).2,
      hpending.sublist (hsub.map _)⟩
  obtain ⟨hconserved, hresume⟩ := reservePending_spec hready hloop
  refine ⟨hconserved, _, ?_, howner ▸ hresume⟩
  intro c hc
  obtain ⟨item, hitem, rfl⟩ := mem_map.mp hc
  exact hmade _ (holds item (hsub.subset hitem)).1

theorem releaseAll_spec (ids : List String) (h : Conserved s)
    (hrun : ids.foldlM (fun s id => (releaseReservationItem s id).map Prod.fst) s = .ok s') :
    Conserved s' ∧ ∀ r ∈ s.reservations, ∃ r' ∈ s'.reservations,
      r' = r ∨ (r.id ∈ ids ∧ r.state = .reserved ∧ r' = r.enter .released) := by
  induction ids generalizing s with
  | nil =>
    cases hrun
    exact ⟨h, fun r hr => ⟨r, hr, .inl rfl⟩⟩
  | cons id ids ih =>
    rw [foldlM_cons] at hrun
    obtain ⟨s₁, hfirst, hrest⟩ := bind_eq_ok.mp hrun
    obtain ⟨⟨s₂, out⟩, hrelease, rfl⟩ := map_eq_ok.mp hfirst
    obtain ⟨hconserved, hmoves⟩ := ih (h.release hrelease) hrest
    refine ⟨hconserved, fun r hr => ?_⟩
    rcases release_eq h.reservationIds hrelease with
      ⟨hsame, -⟩ | ⟨r₀, hr₀, g, hg, ledger, hid, hstate, hgrant, hs₂⟩
    · obtain ⟨r', hr', hmove⟩ := hmoves r (hsame ▸ hr)
      exact ⟨r', hr', hmove.imp_right fun ⟨hmem, hrest⟩ => ⟨mem_cons_of_mem _ hmem, hrest⟩⟩
    · by_cases hrid : r.id = id
      · obtain rfl := inj_on_of_nodup_map h.reservationIds hr hr₀ (hrid.trans hid.symm)
        have hleft : r.enter .released ∈ s₂.reservations := by
          rw [hs₂]
          exact mem_updateAt.mpr (.inl ⟨r, hr, rfl, Reservation.inState_of_eq hstate⟩)
        obtain ⟨r', hr', rfl | ⟨-, hheld, -⟩⟩ := hmoves _ hleft
        · exact ⟨_, hr', .inr ⟨by simp [hrid], hstate, rfl⟩⟩
        · exact absurd hheld (by simp [Reservation.enter])
      · have hkept : r ∈ s₂.reservations := by
          rw [hs₂]
          exact mem_updateAt_of_ne hr (hid ▸ hrid)
        obtain ⟨r', hr', hmove⟩ := hmoves r hkept
        exact ⟨r', hr', hmove.imp_right fun ⟨hmem, hrest⟩ => ⟨mem_cons_of_mem _ hmem, hrest⟩⟩

theorem mem_expiredReservations {now limit : Int} {locked : List String}
    (h : id ∈ expiredReservations collation s now limit locked) : ∃ r ∈ s.reservations, r.id = id ∧ r.leaseExpiresAt ≤ now := by
  obtain ⟨r, hr, rfl⟩ := mem_map.mp h
  have hsorted := mem_of_mem_take hr
  rw [mem_insertionSort] at hsorted
  obtain ⟨hmem, hexpired⟩ := mem_filter.mp hsorted
  exact ⟨r, hmem, rfl, (of_decide_eq_true hexpired).2.1⟩

/-! ## Any sequence of calls -/

/-- The moves a call can make with a reservation: from reserved to consumed, from reserved to
released, and from released to reserved again by a new batch for the same revision. -/
def UsageCommand.Moves (t : PyText) (command : UsageCommand) (r r' : Reservation) : Prop :=
  r' = r ∨ match command with
    | .grant .. => False
    | .reserve owner candidates .. =>
      r.state = .released ∧ r'.state = .reserved ∧ r'.id = r.id ∧ r'.owner = r.owner ∧
        r'.candidate = r.candidate ∧ r.owner = owner ∧ ∃ input ∈ candidates, input.make t = .ok r.candidate
    | .consume id _ => r.id = id ∧ r.state = .reserved ∧ r' = r.enter .consumed
    | .release id => r.id = id ∧ r.state = .reserved ∧ r' = r.enter .released
    | .releaseExpired now _ _ => r.leaseExpiresAt ≤ now ∧ r.state = .reserved ∧ r' = r.enter .released

theorem run_spec (h : Conserved s) (hrun : command.run t collation s = .ok s') :
    Conserved s' ∧ ∀ r ∈ s.reservations, ∃ r' ∈ s'.reservations, command.Moves t r r' := by
  cases command with
  | grant =>
    refine ⟨h.grant hrun, fun r hr => ⟨r, ?_, .inl rfl⟩⟩
    obtain ⟨-, -, -, -, -, -, -, rfl⟩ := grant_eq hrun
    exact hr
  | reserve =>
    obtain ⟨⟨s₁, out⟩, hreserve, rfl⟩ := map_eq_ok.mp hrun
    obtain ⟨hconserved, normalized, hmade, hresume⟩ := reserve_spec h hreserve
    refine ⟨hconserved, fun r hr => ?_⟩
    obtain ⟨r', hr', hmove⟩ := hresume r hr
    refine ⟨r', hr', hmove.imp_right fun ⟨h1, h2, h3, h4, h5, h6, hmem⟩ => ?_⟩
    exact ⟨h1, h2, h3, h4, h5, h6, hmade _ hmem⟩
  | consume =>
    obtain ⟨⟨s₁, out⟩, hconsume, rfl⟩ := map_eq_ok.mp hrun
    refine ⟨h.consume hconsume, fun r hr => ?_⟩
    rcases consume_eq h.reservationIds hconsume with
      ⟨rfl, -⟩ | ⟨r₀, hr₀, g, hg, ledger, hid, hstate, -, -, rfl⟩
    · exact ⟨r, hr, .inl rfl⟩
    · refine exists_updateAt (R := UsageCommand.Moves t _) (fun r => .inl rfl) (fun r hr hkey => ?_) hr
      obtain rfl := inj_on_of_nodup_map h.reservationIds hr hr₀ hkey
      exact .inr ⟨hid, hstate, Reservation.inState_of_eq hstate⟩
  | release =>
    obtain ⟨⟨s₁, out⟩, hrelease, rfl⟩ := map_eq_ok.mp hrun
    refine ⟨h.release hrelease, fun r hr => ?_⟩
    rcases release_eq h.reservationIds hrelease with
      ⟨rfl, -⟩ | ⟨r₀, hr₀, g, hg, ledger, hid, hstate, -, rfl⟩
    · exact ⟨r, hr, .inl rfl⟩
    · refine exists_updateAt (R := UsageCommand.Moves t _) (fun r => .inl rfl) (fun r hr hkey => ?_) hr
      obtain rfl := inj_on_of_nodup_map h.reservationIds hr hr₀ hkey
      exact .inr ⟨hid, hstate, Reservation.inState_of_eq hstate⟩
  | releaseExpired =>
    obtain ⟨hconserved, hmoves⟩ := releaseAll_spec _ h hrun
    refine ⟨hconserved, fun r hr => ?_⟩
    obtain ⟨r', hr', hmove⟩ := hmoves r hr
    refine ⟨r', hr', hmove.imp_right fun ⟨hmem, hstate, hleft⟩ => ?_⟩
    obtain ⟨r₀, hr₀, hid, hlease⟩ := mem_expiredReservations hmem
    obtain rfl := inj_on_of_nodup_map h.reservationIds hr₀ hr hid
    exact ⟨hlease, hstate, hleft⟩

theorem conserved_empty : Conserved .empty where
  grantIds := nodup_nil
  reservationIds := nodup_nil
  grantOf := by simp [UsageTables.empty]
  balanced := by simp [UsageTables.empty]

theorem step_spec (h : Conserved s) (hstep : Step t collation s command s') :
    Conserved s' ∧ ∀ r ∈ s.reservations, ∃ r' ∈ s'.reservations, command.Moves t r r' := by
  cases hstep with
  | committed hrun => exact run_spec h hrun
  | rolledBack => exact ⟨h, fun r hr => ⟨r, hr, .inl rfl⟩⟩

theorem run_conserved (h : Conserved s) (hrun : Run t collation s s') : Conserved s' := by
  induction hrun with
  | start => exact h
  | step command _ hstep ih => exact (step_spec ih hstep).1

theorem UsageCommand.Moves.id_eq {r r' : Reservation} (h : command.Moves t r r') : r'.id = r.id := by
  rcases h with rfl | h
  · rfl
  cases command with
  | grant => exact absurd h id
  | reserve => exact h.2.2.1
  | consume => rw [h.2.2]; rfl
  | release => rw [h.2.2]; rfl
  | releaseExpired => rw [h.2.2]; rfl

theorem UsageCommand.Moves.consumed {r r' : Reservation}
    (h : command.Moves t r r') (hconsumed : r.state = .consumed) : r' = r := by
  rcases h with rfl | h
  · rfl
  cases command with
  | grant => exact absurd h id
  | reserve => exact absurd (hconsumed.symm.trans h.1) (by simp)
  | consume => exact absurd (hconsumed.symm.trans h.2.1) (by simp)
  | release => exact absurd (hconsumed.symm.trans h.2.1) (by simp)
  | releaseExpired => exact absurd (hconsumed.symm.trans h.2.1) (by simp)

theorem run_consumed (h : Conserved s) (hrun : Run t collation s s')
    (hr : r ∈ s.reservations) (hconsumed : r.state = .consumed) : r ∈ s'.reservations := by
  induction hrun with
  | start => exact hr
  | step command hprefix hstep ih =>
    obtain ⟨r', hr', hmove⟩ := (step_spec (run_conserved h hprefix) hstep).2 r ih
    exact hmove.consumed hconsumed ▸ hr'

theorem settle_again (h : Conserved s) (hleft : ∀ r ∈ s.reservations, r.id = id → r.state ≠ .reserved)
    (hcommand : (∃ snapshotId, command = .consume id snapshotId) ∨ command = .release id)
    (hstep : Step t collation s command s') : s' = s := by
  cases hstep with
  | rolledBack => rfl
  | committed hrun =>
    rcases hcommand with ⟨snapshotId, rfl⟩ | rfl
    · obtain ⟨⟨s₁, out⟩, hconsume, rfl⟩ := map_eq_ok.mp hrun
      rcases consume_eq h.reservationIds hconsume with ⟨rfl, -⟩ | ⟨r, hr, g, hg, ledger, hid, hstate, -⟩
      · rfl
      · exact absurd hstate (hleft r hr hid)
    · obtain ⟨⟨s₁, out⟩, hrelease, rfl⟩ := map_eq_ok.mp hrun
      rcases release_eq h.reservationIds hrelease with ⟨rfl, -⟩ | ⟨r, hr, g, hg, ledger, hid, hstate, -⟩
      · rfl
      · exact absurd hstate (hleft r hr hid)

/-- The usage credits are conserved: after any sequence of calls the counters of every grant lie in their bounds and count its
reservations, a call moves a reservation from reserved to consumed or to released, or from released to reserved again, a
consumed one never changes, and settling one that is not held changes nothing. -/
theorem ledger_conserved (hrun : Run t collation .empty s) :
    (∀ g ∈ s.grants, Balanced s g) ∧ (s.reservations.map Reservation.id).Nodup ∧
      (∀ command s', Step t collation s command s' →
        ∀ r ∈ s.reservations, ∃ r' ∈ s'.reservations, r'.id = r.id ∧ command.Moves t r r') ∧
      (∀ s', Run t collation s s' → ∀ r ∈ s.reservations, r.state = .consumed → r ∈ s'.reservations) ∧
      ∀ id command s', (∀ r ∈ s.reservations, r.id = id → r.state ≠ .reserved) →
        ((∃ snapshotId, command = .consume id snapshotId) ∨ command = .release id) →
        Step t collation s command s' → s' = s := by
  have hconserved := run_conserved conserved_empty hrun
  refine ⟨hconserved.balanced, hconserved.reservationIds, ?_, ?_, ?_⟩
  · intro command s' hstep r hr
    obtain ⟨r', hr', hmove⟩ := (step_spec hconserved hstep).2 r hr
    exact ⟨r', hr', hmove.id_eq, hmove⟩
  · exact fun s' hrest r hr hstate => run_consumed hconserved hrest hr hstate
  · exact fun id command s' hleft hcommand hstep => settle_again hconserved hleft hcommand hstep

theorem sampleOwner_id : requiredText (.str "u1") = some "u1" := by decide

def sampleOwner : UsageOwner := ⟨.account, "u1", sampleOwner_id⟩

def sampleGrant : UsageCommand :=
  .grant sampleOwner 1 "purchase" "release-1" (.ofList (List.replicate 64 '0')) 1 1000 none "g1"

def sampleReserve : UsageCommand :=
  .reserve sampleOwner [.fields (.str "msc") (.str "PLAN") (.str "PL1") (.str "00")] (.str "job")
    "reject_all" 900 10 10 fun c => c.sourceCode

theorem ledger_conserved_sample :
    let s := UsageTables.empty.runAll .plain .codePoints [sampleGrant, sampleReserve, .consume "PL1" (some (.str "raw"))]
    (s.grants.map fun g => (g.remaining, g.reserved)) = [(0, 0)] ∧ ∀ g ∈ s.grants, Balanced s g :=
  ⟨by decide, (ledger_conserved (run_runAll .plain .codePoints .empty _)).1⟩

/-- A released reservation is reserved again under the same id by the next batch for its revision,
and releasing it a second time changes the balance. -/
theorem released_reservation_moves_again :
    ∃ s s₁ s₂, Run .plain .codePoints .empty s ∧ Step .plain .codePoints s sampleReserve s₁ ∧
      Step .plain .codePoints s₁ (.release "PL1") s₂ ∧
      s.reservations.map (fun r => (r.id, r.state)) = [("PL1", .released)] ∧
      s₁.reservations.map (fun r => (r.id, r.state)) = [("PL1", .reserved)] ∧
      s₂.grants.map Grant.reserved ≠ s₁.grants.map Grant.reserved :=
  let s := UsageTables.empty.runAll .plain .codePoints [sampleGrant, sampleReserve, .release "PL1"]
  let s₁ := s.runAll .plain .codePoints [sampleReserve]
  let s₂ := s₁.runAll .plain .codePoints [.release "PL1"]
  ⟨s, s₁, s₂, run_runAll .plain .codePoints .empty _, .committed (by decide),
    .committed (by decide), by decide, by decide, by decide⟩

end Bidding.Usage
