import Bidding.Usage.Service

/-!
# Conservation of usage credits

The counters of a grant say how many of its reservations are held and how many are consumed. Every
call keeps that: it writes one counter together with the one reservation that accounts for it.
-/

namespace Bidding.Usage

open Foundations List

variable {t : PyText} {collation : Collation} {s s' : UsageTables} {f : Reservation → Reservation} {state : ReservationState} {r : Reservation} {g : Grant} {F : Grant → Grant} {id : String} {owner : UsageOwner} {quantity : Int} {source releaseId policyChecksum : String} {issuedAt expiresAt : Int} {orderItemId : Option String} {grantId : String} {snapshotId : Option Scalar} {out : ReservationPayload}

def Reservation.countsFor (grantId : String) (state : ReservationState) (r : Reservation) : Bool :=
  r.grantId = grantId ∧ r.state = state

def Reservation.share (grantId : String) (state : ReservationState) (r : Reservation) : ℕ :=
  if r.countsFor grantId state then 1 else 0

def UsageTables.held (s : UsageTables) (grantId : String) (state : ReservationState) : ℕ :=
  s.reservations.countP (Reservation.countsFor grantId state)

/-- The counters of a grant lie in their bounds and agree with its reservations. -/
structure Balanced (s : UsageTables) (g : Grant) : Prop where
  reserved_nonneg : 0 ≤ g.reserved
  reserved_le : g.reserved ≤ g.remaining
  remaining_le : g.remaining ≤ g.total
  reserved_eq : g.reserved = s.held g.id .reserved
  consumed_eq : g.total - g.remaining = s.held g.id .consumed

/-- The invariant of the tables. -/
structure Conserved (s : UsageTables) : Prop where
  grantIds : (s.grants.map Grant.id).Nodup
  reservationIds : (s.reservations.map Reservation.id).Nodup
  grantOf : ∀ r ∈ s.reservations, ∃ g ∈ s.grants, g.id = r.grantId
  balanced : ∀ g ∈ s.grants, Balanced s g

/-! ## The rows the statements write -/

@[simp] theorem Grant.reserveOne_id (g : Grant) : g.reserveOne.id = g.id := rfl

@[simp] theorem Grant.consumeOne_id (g : Grant) : g.consumeOne.id = g.id := by
  unfold Grant.consumeOne
  split <;> rfl

@[simp] theorem Grant.releaseOne_id (g : Grant) : g.releaseOne.id = g.id := by
  unfold Grant.releaseOne
  split <;> rfl

@[simp] theorem Reservation.enter_id (state : ReservationState) (r : Reservation) : (r.enter state).id = r.id := rfl

@[simp] theorem ReserveContext.again_id (ctx : ReserveContext) (grantId : String) (r : Reservation) :
    (ctx.again grantId r).id = r.id := rfl

theorem Reservation.inState_id (hf : ∀ r, (f r).id = r.id)
    (state : ReservationState) (r : Reservation) : (r.inState state f).id = r.id := by
  unfold Reservation.inState
  split
  · exact hf r
  · rfl

theorem Reservation.inState_of_eq (h : r.state = state) : r.inState state f = f r := if_pos h

theorem held_updateAt (hnodup : (s.reservations.map Reservation.id).Nodup)
    (hr : r ∈ s.reservations) (f : Reservation → Reservation) (grants : List Grant)
    (ledger : List LedgerEntry) (grantId : String) (state : ReservationState) :
    (UsageTables.mk grants (updateAt Reservation.id r.id f s.reservations) ledger).held grantId state +
      r.share grantId state = s.held grantId state + (f r).share grantId state :=
  countP_updateAt hnodup hr rfl (Reservation.countsFor grantId state)

theorem Conserved.change (h : Conserved s) (hr : r ∈ s.reservations) (hf : ∀ r, (f r).id = r.id) (hg : g ∈ s.grants)
    (hF : ∀ g, (F g).id = g.id) (hgrant : (f r).grantId = g.id)
    (hothers : ∀ grantId, grantId ≠ g.id → ∀ state, state ≠ .released → r.share grantId state = (f r).share grantId state)
    (hbounds : 0 ≤ (F g).reserved ∧ (F g).reserved ≤ (F g).remaining ∧ (F g).remaining ≤ (F g).total)
    (hreserved : (F g).reserved + r.share g.id .reserved = g.reserved + (f r).share g.id .reserved)
    (hconsumed : (F g).total - (F g).remaining + r.share g.id .consumed =
      g.total - g.remaining + (f r).share g.id .consumed) (ledger : List LedgerEntry) :
    Conserved ⟨updateAt Grant.id g.id F s.grants, updateAt Reservation.id r.id f s.reservations, ledger⟩ := by
  have hheld := held_updateAt h.reservationIds hr f (updateAt Grant.id g.id F s.grants) ledger
  have hids : (updateAt Grant.id g.id F s.grants).map Grant.id = s.grants.map Grant.id :=
    map_key_updateAt fun g' hg' => (hF g').trans hg'
  refine ⟨hids ▸ h.grantIds, ?_, ?_, ?_⟩
  · rw [map_key_updateAt fun r' hr' => (hf r').trans hr']
    exact h.reservationIds
  · intro r' hr'
    have hold : ∃ g' ∈ s.grants, g'.id = r'.grantId := by
      rcases mem_updateAt.mp hr' with ⟨r₀, hr₀, hid, rfl⟩ | ⟨hmem, -⟩
      · obtain rfl := inj_on_of_nodup_map h.reservationIds hr₀ hr hid
        exact ⟨g, hg, hgrant.symm⟩
      · exact h.grantOf r' hmem
    exact exists_key_updateAt (fun g' hg' => (hF g').trans hg') hold
  · intro g' hg'
    rcases mem_updateAt.mp hg' with ⟨g₀, hg₀, hid, rfl⟩ | ⟨hmem, hne⟩
    · obtain rfl := inj_on_of_nodup_map h.grantIds hg₀ hg hid
      have hb := h.balanced g₀ hg₀
      have h1 := hheld g₀.id .reserved
      have h2 := hheld g₀.id .consumed
      have h3 := hb.reserved_eq
      have h4 := hb.consumed_eq
      refine ⟨hbounds.1, hbounds.2.1, hbounds.2.2, ?_, ?_⟩ <;> rw [hF g₀] <;> omega
    · have hb := h.balanced g' hmem
      have h1 := hheld g'.id .reserved
      have h2 := hheld g'.id .consumed
      rw [hothers g'.id hne _ (by simp)] at h1 h2
      refine ⟨hb.reserved_nonneg, hb.reserved_le, hb.remaining_le, ?_, ?_⟩
      · rw [hb.reserved_eq]
        omega
      · rw [hb.consumed_eq]
        omega

theorem Conserved.append (h : Conserved s) (hnew : ∀ r' ∈ s.reservations, r'.id ≠ r.id) (hg : g ∈ s.grants)
    (hgrant : r.grantId = g.id) (hstate : r.state = .reserved) (hfree : g.reserved < g.remaining) (ledger : List LedgerEntry) :
    Conserved ⟨updateAt Grant.id g.id Grant.reserveOne s.grants, s.reservations ++ [r], ledger⟩ := by
  have hheld : ∀ grantId state, (UsageTables.mk (updateAt Grant.id g.id Grant.reserveOne s.grants) (s.reservations ++ [r])
        ledger).held grantId state = s.held grantId state + r.share grantId state := by
    intro grantId state
    simp [UsageTables.held, Reservation.share, countP_append, countP_cons]
  have hids : (updateAt Grant.id g.id Grant.reserveOne s.grants).map Grant.id =
      s.grants.map Grant.id := map_key_updateAt fun _ hg' => hg'
  refine ⟨hids ▸ h.grantIds, ?_, ?_, ?_⟩
  · rw [map_append, nodup_append]
    refine ⟨h.reservationIds, by simp, ?_⟩
    intro a ha b hb hab
    obtain ⟨r', hr', rfl⟩ := mem_map.mp ha
    obtain rfl : b = r.id := by simpa using hb
    exact hnew r' hr' hab
  · intro r' hr'
    have hold : ∃ g' ∈ s.grants, g'.id = r'.grantId := by
      rcases mem_append.mp hr' with hr' | hr'
      · exact h.grantOf r' hr'
      · obtain rfl : r' = r := by simpa using hr'
        exact ⟨g, hg, hgrant.symm⟩
    exact exists_key_updateAt (fun g' hg' => (Grant.reserveOne_id g').trans hg') hold
  · intro g' hg'
    rcases mem_updateAt.mp hg' with ⟨g₀, hg₀, hid, rfl⟩ | ⟨hmem, hne⟩
    · obtain rfl := inj_on_of_nodup_map h.grantIds hg₀ hg hid
      have hb := h.balanced g₀ hg₀
      have h1 : r.share g₀.id .reserved = 1 := by simp [Reservation.share, Reservation.countsFor, hgrant, hstate]
      have h2 : r.share g₀.id .consumed = 0 := by simp [Reservation.share, Reservation.countsFor, hstate]
      have h3 := hb.reserved_eq
      have h4 := hb.consumed_eq
      have h5 := hb.reserved_nonneg
      have h6 := hb.remaining_le
      refine ⟨?_, ?_, ?_, ?_, ?_⟩ <;> simp only [Grant.reserveOne, hheld, h1, h2] <;> omega
    · have hb := h.balanced g' hmem
      have hshare : ∀ state, r.share g'.id state = 0 := by
        intro state
        simp [Reservation.share, Reservation.countsFor, hgrant, Ne.symm hne]
      refine ⟨hb.reserved_nonneg, hb.reserved_le, hb.remaining_le, ?_, ?_⟩ <;>
        simp only [hheld, hshare, Nat.add_zero]
      · exact hb.reserved_eq
      · exact hb.consumed_eq

theorem updateGrant_eq {f : Grant → Grant} (h : s.updateGrant id f = .ok s') :
    s' = { s with grants := updateAt Grant.id id f s.grants } := by
  unfold UsageTables.updateGrant at h
  simp only at h
  split at h
  · exact (Except.ok.inj h).symm
  · exact absurd h (by simp)

theorem addEntry_eq {e : LedgerEntry} (h : s.addEntry e = .ok s') : s' = { s with ledger := s.ledger ++ [e] } := by
  unfold UsageTables.addEntry at h
  split at h
  · exact (Except.ok.inj h).symm
  · exact absurd h (by simp)

theorem grant_eq (h : grant s owner quantity source releaseId policyChecksum issuedAt expiresAt orderItemId grantId = .ok s') :
    ∃ g ledger, g.id = grantId ∧ 0 < g.total ∧ g.remaining = g.total ∧ g.reserved = 0 ∧
      s.getGrant grantId = none ∧ s' = ⟨s.grants ++ [g], s.reservations, ledger⟩ := by
  unfold grant at h
  split at h
  · exact absurd h (by simp)
  split at h
  · exact absurd h (by simp)
  split at h
  · exact absurd h (by simp)
  obtain ⟨s₁, hinsert, hentry⟩ := bind_eq_ok.mp h
  unfold UsageTables.insertGrant at hinsert
  split at hinsert
  · rename_i hquantity _ _ hcheck
    cases hinsert
    rw [addEntry_eq hentry]
    exact ⟨_, _, rfl, by simp only; omega, rfl, rfl, hcheck.2, rfl⟩
  · exact absurd hinsert (by simp)

theorem Conserved.grant (h : Conserved s)
    (hgrant : Usage.grant s owner quantity source releaseId policyChecksum issuedAt expiresAt orderItemId
      grantId = .ok s') : Conserved s' := by
  obtain ⟨g, ledger, rfl, htotal, hremaining, hreserved, hnone, rfl⟩ := grant_eq hgrant
  have hfresh : ∀ g' ∈ s.grants, g'.id ≠ g.id := rowAt_eq_none.mp hnone
  refine ⟨?_, h.reservationIds, ?_, ?_⟩
  · rw [map_append, nodup_append]
    refine ⟨h.grantIds, by simp, ?_⟩
    intro a ha b hb hab
    obtain ⟨g', hg', rfl⟩ := mem_map.mp ha
    obtain rfl : b = g.id := by simpa using hb
    exact hfresh g' hg' hab
  · intro r hr
    obtain ⟨g', hg', hid⟩ := h.grantOf r hr
    exact ⟨g', mem_append_left _ hg', hid⟩
  · intro g' hg'
    rcases mem_append.mp hg' with hg' | hg'
    · have hb := h.balanced g' hg'
      exact ⟨hb.reserved_nonneg, hb.reserved_le, hb.remaining_le, hb.reserved_eq, hb.consumed_eq⟩
    obtain rfl : g' = g := by simpa using hg'
    -- No reservation names the new grant yet.
    have hnone : ∀ state, s.held g'.id state = 0 := by
      intro state
      refine countP_eq_zero.mpr fun r hr hcounts => ?_
      obtain ⟨g'', hg'', hid⟩ := h.grantOf r hr
      refine hfresh g'' hg'' (hid.trans ?_)
      exact (of_decide_eq_true hcounts).1
    refine ⟨by omega, by omega, by omega, ?_, ?_⟩
    · show g'.reserved = ((s.held g'.id .reserved : ℕ) : Int)
      rw [hnone, hreserved]
      rfl
    · show g'.total - g'.remaining = ((s.held g'.id .consumed : ℕ) : Int)
      rw [hnone]
      omega

/-! ## Consume and release -/

theorem consume_eq
    (hids : (s.reservations.map Reservation.id).Nodup) (h : consumeReservationItem s id snapshotId = .ok (s', out)) :
    (s' = s ∧ ∃ r ∈ s.reservations, r.id = id ∧ r.state = .consumed) ∨
      ∃ r ∈ s.reservations, ∃ g ∈ s.grants, ∃ ledger, r.id = id ∧ r.state = .reserved ∧
        g.id = r.grantId ∧ snapshotId.any Scalar.truthy = true ∧
        s' = ⟨updateAt Grant.id g.id Grant.consumeOne s.grants,
          updateAt Reservation.id r.id (Reservation.inState .reserved (.enter .consumed)) s.reservations, ledger⟩ := by
  unfold consumeReservationItem at h
  split at h
  · exact absurd h (by simp)
  rename_i r hfound
  obtain ⟨hr, rfl⟩ := mem_of_rowAt hfound
  split at h
  · rename_i hconsumed
    exact .inl ⟨(congrArg Prod.fst (Except.ok.inj h)).symm, r, hr, rfl, hconsumed⟩
  split at h
  · exact absurd h (by simp)
  rename_i hreserved
  rw [ne_eq, not_not] at hreserved
  split at h
  · exact absurd h (by simp)
  rename_i hsnapshot
  split at h
  · exact absurd h (by simp)
  rename_i g hgrant
  obtain ⟨hg, hgid⟩ := mem_of_rowAt hgrant
  have hcount := countP_key hids hr rfl (p := fun r : Reservation => r.state = .reserved) hreserved
  simp only [UsageTables.updateReservation, hcount, ne_eq, not_true_eq_false, if_false] at h
  obtain ⟨s₁, hupdate, hrest⟩ := bind_eq_ok.mp h
  obtain ⟨s₂, hentry, hout⟩ := map_eq_ok.mp hrest
  obtain rfl := updateGrant_eq hupdate
  obtain rfl := addEntry_eq hentry
  obtain rfl := congrArg Prod.fst hout
  exact .inr ⟨r, hr, g, hg, _, rfl, hreserved, hgid, by simpa using hsnapshot, rfl⟩

theorem release_eq (hids : (s.reservations.map Reservation.id).Nodup) (h : releaseReservationItem s id = .ok (s', out)) :
    (s' = s ∧ ∃ r ∈ s.reservations, r.id = id ∧ r.state ≠ .reserved) ∨
      ∃ r ∈ s.reservations, ∃ g ∈ s.grants, ∃ ledger, r.id = id ∧ r.state = .reserved ∧
        g.id = r.grantId ∧
        s' = ⟨updateAt Grant.id g.id Grant.releaseOne s.grants,
          updateAt Reservation.id r.id (Reservation.inState .reserved (.enter .released)) s.reservations, ledger⟩ := by
  unfold releaseReservationItem at h
  split at h
  · exact absurd h (by simp)
  rename_i r hfound
  obtain ⟨hr, rfl⟩ := mem_of_rowAt hfound
  split at h
  · rename_i hleft
    exact .inl ⟨(congrArg Prod.fst (Except.ok.inj h)).symm, r, hr, rfl, hleft⟩
  rename_i hreserved
  rw [ne_eq, not_not] at hreserved
  split at h
  · exact absurd h (by simp)
  rename_i g hgrant
  obtain ⟨hg, hgid⟩ := mem_of_rowAt hgrant
  have hcount := countP_key hids hr rfl (p := fun r : Reservation => r.state = .reserved) hreserved
  simp only [UsageTables.updateReservation, hcount, if_true] at h
  obtain ⟨s₁, hupdate, hrest⟩ := bind_eq_ok.mp h
  obtain ⟨s₂, hentry, hout⟩ := map_eq_ok.mp hrest
  obtain rfl := updateGrant_eq hupdate
  obtain rfl := addEntry_eq hentry
  obtain rfl := congrArg Prod.fst hout
  exact .inr ⟨r, hr, g, hg, _, rfl, hreserved, hgid, rfl⟩

theorem share_of_state (hstate : r.state = state) (grantId : String) (other : ReservationState) :
    r.share grantId other = if r.grantId = grantId ∧ state = other then 1 else 0 := by
  simp [Reservation.share, Reservation.countsFor, hstate]

theorem enter_share (r : Reservation) (state other : ReservationState) (grantId : String) :
    (r.enter state).share grantId other = if r.grantId = grantId ∧ state = other then 1 else 0 :=
  share_of_state rfl grantId other

theorem Balanced.pos (hb : Balanced s g) (hr : r ∈ s.reservations)
    (hgrant : r.grantId = g.id) (hstate : r.state = .reserved) : 0 < g.reserved := by
  have hcount : 0 < s.held g.id .reserved :=
    countP_pos_iff.mpr ⟨r, hr, by simp [Reservation.countsFor, hgrant, hstate]⟩
  rw [hb.reserved_eq]
  omega

theorem Conserved.leave (h : Conserved s) (hr : r ∈ s.reservations)
    (hstate : r.state = .reserved) (hg : g ∈ s.grants) (hgrant : g.id = r.grantId)
    (hne : state ≠ .reserved) (hF : ∀ g, (F g).id = g.id)
    (htotal : (F g).total = g.total) (hreserved : (F g).reserved = g.reserved - 1)
    (hremaining : (F g).remaining = g.remaining - if state = .consumed then 1 else 0) (ledger : List LedgerEntry) :
    Conserved ⟨updateAt Grant.id g.id F s.grants,
      updateAt Reservation.id r.id (Reservation.inState .reserved (.enter state)) s.reservations, ledger⟩ := by
  have hb := h.balanced g hg
  have hpos := hb.pos hr hgrant.symm hstate
  have h1 := hb.reserved_le
  have h2 := hb.remaining_le
  have hleaves : Reservation.inState .reserved (.enter state) r = r.enter state :=
    Reservation.inState_of_eq hstate
  refine h.change hr (Reservation.inState_id (Reservation.enter_id state) _) hg hF ?_ ?_ ?_ ?_ ?_ ledger
  · rw [hleaves]
    exact hgrant.symm
  · intro grantId hother _ _
    rw [hleaves, enter_share, share_of_state hstate, if_neg (by rw [← hgrant]; exact fun h => hother h.1.symm),
      if_neg (by rw [← hgrant]; exact fun h => hother h.1.symm)]
  · cases state <;> simp_all <;> omega
  · rw [hleaves, enter_share, share_of_state hstate, hreserved]
    simp [hgrant, hne]
  · rw [hleaves, enter_share, share_of_state hstate, htotal, hremaining]
    simp [hgrant]
    omega

theorem Conserved.consume (h : Conserved s) (hconsume : consumeReservationItem s id snapshotId = .ok (s', out)) :
    Conserved s' := by
  rcases consume_eq h.reservationIds hconsume with
    ⟨rfl, -⟩ | ⟨r, hr, g, hg, ledger, -, hstate, hgrant, -, rfl⟩
  · exact h
  · have hb := h.balanced g hg
    have hpos := hb.pos hr hgrant.symm hstate
    have hone : 0 < g.remaining ∧ 0 < g.reserved := ⟨by have := hb.reserved_le; omega, hpos⟩
    refine h.leave hr hstate hg hgrant (by simp) Grant.consumeOne_id ?_ ?_ ?_ ledger <;>
      simp [Grant.consumeOne, hone]

theorem Conserved.release (h : Conserved s) (hrelease : releaseReservationItem s id = .ok (s', out)) : Conserved s' := by
  rcases release_eq h.reservationIds hrelease with ⟨rfl, -⟩ | ⟨r, hr, g, hg, ledger, -, hstate, hgrant, rfl⟩
  · exact h
  · have hpos := (h.balanced g hg).pos hr hgrant.symm hstate
    refine h.leave hr hstate hg hgrant (by simp) Grant.releaseOne_id ?_ ?_ ?_ ledger <;>
      simp [Grant.releaseOne, hpos]

end Bidding.Usage
