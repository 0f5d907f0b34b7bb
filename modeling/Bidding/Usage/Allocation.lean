import Mathlib.Algebra.BigOperators.Group.List.Basic
import Bidding.Usage.Ledger

/-!
# The order of the credits

A batch takes from the front of the queue of credits, in the order the grants expire, one for each candidate that waits. So
no grant is used while an earlier one has a credit left.
-/

namespace Bidding.Usage

open Foundations List

variable {t : PyText} {collation : Collation} {s s' : UsageTables}

/-- The keys of the tables and the checks of the grants. -/
structure UsageTables.Constrained (s : UsageTables) : Prop where
  grantIds : (s.grants.map Grant.id).Nodup
  reservationIds : (s.reservations.map Reservation.id).Nodup
  revisions : (s.reservations.map fun r => (r.owner, r.candidate)).Nodup
  checked : ∀ g ∈ s.grants, g.Checked

def UsageTables.Holds (s : UsageTables) (owner : UsageOwner) (c : SourceRevisionCandidate) : Prop :=
  ∃ r ∈ s.reservations, r.owner = owner ∧ r.candidate = c ∧ r.isHeld = true

def Grant.AvailableTo (owner : UsageOwner) (now : Int) (g : Grant) : Prop :=
  g.owner = owner ∧ now < g.expiresAt ∧ g.reserved < g.remaining

instance (owner : UsageOwner) (now : Int) (g : Grant) : Decidable (g.AvailableTo owner now) := by
  unfold Grant.AvailableTo
  infer_instance

def UsageTables.balance (s : UsageTables) (owner : UsageOwner) (now : Int) : Int :=
  ((s.grants.filter fun g => g.AvailableTo owner now).map fun g => g.remaining - g.reserved).sum

def UsageTables.waiting (s : UsageTables) (owner : UsageOwner)
    (candidates : List SourceRevisionCandidate) : List SourceRevisionCandidate :=
  (pendingOf s owner candidates).map Prod.fst

/-- What a batch that takes these candidates leaves behind. -/
structure Allocated (s s' : UsageTables) (owner : UsageOwner) (now : Int)
    (taken : List SourceRevisionCandidate) (out : List ReservationPayload) : Prop where
  /-- They are taken in their order. -/
  candidates : out.map ReservationPayload.candidate = taken
  /-- Each is taken of an available grant. -/
  available : ∀ p ∈ out, ∃ g ∈ s.grants, g.id = p.grantId ∧ g.AvailableTo owner now
  /-- Before a grant is used, those that expire earlier are used up. -/
  earliest : ∀ before p rest, out = before ++ p :: rest → ∀ g ∈ s.grants, ∀ g' ∈ s.grants,
    g.AvailableTo owner now → g'.id = p.grantId → g.expiresAt < g'.expiresAt →
      g.reserved + before.countP (fun q => q.grantId = g.id) = g.remaining
  /-- The grants count what is taken of them. -/
  grants : s'.grants = s.grants.map fun g =>
    { g with reserved := g.reserved + out.countP fun q => q.grantId = g.id }
  /-- The candidates that are taken are reserved, and no others. -/
  held : ∀ owner' c, s'.Holds owner' c ↔ s.Holds owner' c ∨ (owner' = owner ∧ c ∈ taken)
  constrained : s'.Constrained

def creditsOf (lines : List GrantLine) : List String :=
  lines.flatMap fun line => List.replicate (line.remaining - line.reserved).toNat line.id

theorem creditsOf_cons (line : GrantLine) (lines : List GrantLine) : creditsOf (line :: lines) =
    List.replicate (line.remaining - line.reserved).toNat line.id ++ creditsOf lines := by
  simp [creditsOf]

theorem creditsOf_dropWhile (lines : List GrantLine) :
    creditsOf (lines.dropWhile fun line => line.remaining - line.reserved ≤ 0) = creditsOf lines := by
  induction lines with
  | nil => rfl
  | cons line lines ih =>
    by_cases h : line.remaining - line.reserved ≤ 0
    · rw [dropWhile_cons_of_pos (by simpa using h), ih, creditsOf_cons, Int.toNat_of_nonpos h]
      rfl
    · rw [dropWhile_cons_of_neg (by simpa using h)]

theorem creditsOf_take {line : GrantLine} (others : List GrantLine) (hfree : line.reserved < line.remaining) :
    creditsOf (line :: others) = line.id :: creditsOf ({ line with reserved := line.reserved + 1 } :: others) := by
  have hcount : (line.remaining - line.reserved).toNat = (line.remaining - (line.reserved + 1)).toNat + 1 := by omega
  rw [creditsOf_cons, creditsOf_cons, hcount, replicate_succ]
  rfl

theorem exists_append_of_not_mem {α : Type} {front back before rest : List α} {x : α}
    (h : front ++ back = before ++ x :: rest) (hx : x ∉ front) : ∃ middle, before = front ++ middle := by
  rcases append_eq_append_iff.mp h with ⟨middle, hbefore, -⟩ | ⟨middle, hfront, hrest⟩
  · exact ⟨middle, hbefore⟩
  cases middle with
  | nil => exact ⟨[], by rw [hfront, append_nil, append_nil]⟩
  | cons y middle =>
    obtain rfl : x = y := by
      rw [cons_append] at hrest
      exact (List.cons.inj hrest).1
    exact absurd (hfront ▸ mem_append_right _ mem_cons_self) hx

/-! ## One candidate -/

def Waits (ctx : ReserveContext) (s : UsageTables) (item : Pending) : Prop :=
  match item.2 with
  | some old => old ∈ s.reservations ∧ old.state = .released ∧ old.owner = ctx.owner ∧ old.candidate = item.1
  | none => s.findReservation ctx.owner item.1 = none ∧ s.getReservation (ctx.newId item.1) = none

theorem findReservation_eq_none {owner : UsageOwner} {c : SourceRevisionCandidate} :
    s.findReservation owner c = none ↔ ∀ r ∈ s.reservations, r.owner = owner → r.candidate ≠ c := by
  simp [UsageTables.findReservation]

/-- The state of the loop: the tables under their constraints, the lines as the tables count them, and
what the candidates wait with. -/
structure LoopState (ctx : ReserveContext) (s : UsageTables) (lines : List GrantLine) (pending : List Pending) : Prop where
  constrained : s.Constrained
  counters : ∀ line ∈ lines, ∃ g ∈ s.grants, g.id = line.id ∧ g.remaining = line.remaining ∧ g.reserved = line.reserved
  lineIds : (lines.map GrantLine.id).Nodup
  waits : ∀ item ∈ pending, Waits ctx s item
  distinct : (pending.map Prod.fst).Nodup
  newIds : (pending.map fun item => ctx.newId item.1).Nodup

variable {ctx : ReserveContext} {line : GrantLine} {lines others : List GrantLine} {item : Pending}
  {rest : List Pending} {g : Grant}

theorem LoopState.sublist (h : LoopState ctx s lines rest) (hsub : others.Sublist lines) : LoopState ctx s others rest where
  constrained := h.constrained
  counters := fun line hline => h.counters line (hsub.subset hline)
  lineIds := h.lineIds.sublist (hsub.map _)
  waits := h.waits
  distinct := h.distinct
  newIds := h.newIds

theorem Grant.Checked.reserveOne (h : g.Checked) (hfree : g.reserved < g.remaining) : g.reserveOne.Checked := by
  obtain ⟨htotal, hremaining, ⟨hnonneg, -⟩, hrest⟩ := h
  refine ⟨htotal, hremaining, ⟨?_, ?_⟩, hrest⟩
  · show 0 ≤ g.reserved + 1
    omega
  · show g.reserved + 1 ≤ g.remaining
    omega

theorem LoopState.updateGrant_ok (h : LoopState ctx s (line :: others) rest)
    (hfree : line.reserved < line.remaining) : s.updateGrant line.id Grant.reserveOne =
        .ok { s with grants := updateAt Grant.id line.id Grant.reserveOne s.grants } ∧
      ∀ g ∈ updateAt Grant.id line.id Grant.reserveOne s.grants, g.Checked := by
  obtain ⟨g, hg, hid, hremaining, hreserved⟩ := h.counters line mem_cons_self
  have hchecked : ∀ g ∈ updateAt Grant.id line.id Grant.reserveOne s.grants, g.Checked := by
    intro g' hg'
    rcases mem_updateAt.mp hg' with ⟨g₀, hg₀, hid₀, rfl⟩ | ⟨hmem, -⟩
    · obtain rfl := inj_on_of_nodup_map h.constrained.grantIds hg₀ hg (hid₀.trans hid.symm)
      exact (h.constrained.checked g₀ hg₀).reserveOne (by omega)
    · exact h.constrained.checked g' hmem
  refine ⟨?_, hchecked⟩
  unfold UsageTables.updateGrant
  dsimp only
  rw [if_pos hchecked]

def placedRows (ctx : ReserveContext) (grantId : String) (item : Pending) (rows : List Reservation) : List Reservation :=
  match item.2 with
  | some old => updateAt Reservation.id old.id (Reservation.inState .released (ctx.again grantId)) rows
  | none => rows ++ [ctx.first grantId item.1]

def placedId (ctx : ReserveContext) (item : Pending) : String :=
  (item.2.map Reservation.id).getD (ctx.newId item.1)

theorem placeReservation_ok (hgrant : ∃ g ∈ s.grants, g.id = line.id) (hwaits : Waits ctx s item) :
    placeReservation ctx s line.id item =
      .ok ({ s with reservations := placedRows ctx line.id item s.reservations }, placedId ctx item) := by
  unfold placeReservation placedRows placedId
  unfold Waits at hwaits
  cases hitem : item.2 with
  | some old => rfl
  | none =>
    rw [hitem] at hwaits
    obtain ⟨g, hg, hid⟩ := hgrant
    have hsome : (s.getGrant line.id).isSome = true := by
      rw [UsageTables.getGrant, rowAt, find?_isSome]
      exact ⟨g, hg, by simpa using hid⟩
    have hinsert : s.insertReservation (ctx.first line.id item.1) =
        .ok { s with reservations := s.reservations ++ [ctx.first line.id item.1] } := by
      unfold UsageTables.insertReservation
      exact if_pos ⟨hwaits.2, hwaits.1, hsome⟩
    dsimp only
    rw [hinsert]
    rfl

theorem placedRows_spec (hs : s.Constrained) (hwaits : Waits ctx s item) (grantId : String)
    (grants : List Grant) (ledger : List LedgerEntry) :
    ((placedRows ctx grantId item s.reservations).map Reservation.id).Nodup ∧
      ((placedRows ctx grantId item s.reservations).map fun r => (r.owner, r.candidate)).Nodup ∧
      ∀ owner' c, UsageTables.Holds ⟨grants, placedRows ctx grantId item s.reservations, ledger⟩ owner' c ↔
        s.Holds owner' c ∨ (owner' = ctx.owner ∧ c = item.1) := by
  unfold placedRows
  unfold Waits at hwaits
  cases hitem : item.2 with
  | some old =>
    rw [hitem] at hwaits
    obtain ⟨hmem, hstate, howner, hcandidate⟩ := hwaits
    have hagain : Reservation.inState .released (ctx.again grantId) old = ctx.again grantId old :=
      Reservation.inState_of_eq hstate
    have hid : ∀ r : Reservation, (Reservation.inState .released (ctx.again grantId) r).id = r.id :=
      Reservation.inState_id (ctx.again_id grantId) .released
    have hkey : ∀ r : Reservation, ((Reservation.inState .released (ctx.again grantId) r).owner,
        (Reservation.inState .released (ctx.again grantId) r).candidate) = (r.owner, r.candidate) := by
      intro r
      unfold Reservation.inState
      split <;> rfl
    refine ⟨?_, ?_, fun owner' c => ?_⟩
    · rw [map_key_updateAt fun r hr => (hid r).trans hr]
      exact hs.reservationIds
    · have hkeys : (updateAt Reservation.id old.id (Reservation.inState .released (ctx.again grantId))
          s.reservations).map (fun r => (r.owner, r.candidate)) = s.reservations.map fun r => (r.owner, r.candidate) := by
        rw [updateAt, map_map]
        refine map_congr_left fun r _ => ?_
        dsimp only [Function.comp_apply]
        split
        · exact hkey r
        · rfl
      rw [hkeys]
      exact hs.revisions
    · constructor
      · rintro ⟨r, hr, hrowner, hrcandidate, hheld⟩
        rcases mem_updateAt.mp hr with ⟨r₀, hr₀, hrid, rfl⟩ | ⟨hr, -⟩
        · obtain rfl := inj_on_of_nodup_map hs.reservationIds hr₀ hmem hrid
          rw [hagain] at hrowner hrcandidate
          exact .inr ⟨hrowner.symm.trans howner, hrcandidate.symm.trans hcandidate⟩
        · exact .inl ⟨r, hr, hrowner, hrcandidate, hheld⟩
      · rintro (⟨r, hr, hrowner, hrcandidate, hheld⟩ | ⟨rfl, rfl⟩)
        · have hne : r.id ≠ old.id := by
            intro heq
            rw [inj_on_of_nodup_map hs.reservationIds hr hmem heq, Reservation.isHeld, hstate] at hheld
            exact absurd hheld (by simp)
          exact ⟨r, mem_updateAt_of_ne hr hne, hrowner, hrcandidate, hheld⟩
        · refine ⟨ctx.again grantId old, mem_updateAt.mpr (.inl ⟨old, hmem, rfl, hagain⟩), howner, hcandidate, ?_⟩
          simp [Reservation.isHeld, ReserveContext.again]
  | none =>
    rw [hitem] at hwaits
    obtain ⟨hnone, hfresh⟩ := hwaits
    refine ⟨?_, ?_, fun owner' c => ?_⟩
    · rw [map_append, nodup_append]
      refine ⟨hs.reservationIds, nodup_singleton _, fun a ha b hb => ?_⟩
      obtain ⟨r, hr, rfl⟩ := mem_map.mp ha
      obtain rfl : b = ctx.newId item.1 := by simpa [ReserveContext.first] using hb
      exact rowAt_eq_none.mp hfresh r hr
    · rw [map_append, nodup_append]
      refine ⟨hs.revisions, nodup_singleton _, fun a ha b hb hab => ?_⟩
      obtain ⟨r, hr, rfl⟩ := mem_map.mp ha
      obtain rfl : b = (ctx.owner, item.1) := by simpa [ReserveContext.first] using hb
      obtain ⟨howner, hcandidate⟩ := Prod.mk.inj hab
      exact findReservation_eq_none.mp hnone r hr howner hcandidate
    · constructor
      · rintro ⟨r, hr, hrowner, hrcandidate, hheld⟩
        rcases mem_append.mp hr with hr | hr
        · exact .inl ⟨r, hr, hrowner, hrcandidate, hheld⟩
        · obtain rfl := mem_singleton.mp hr
          exact .inr ⟨hrowner.symm, hrcandidate.symm⟩
      · rintro (⟨r, hr, hrowner, hrcandidate, hheld⟩ | ⟨rfl, rfl⟩)
        · exact ⟨r, mem_append_left _ hr, hrowner, hrcandidate, hheld⟩
        · refine ⟨ctx.first grantId item.1, mem_append_right _ (mem_singleton_self _), rfl, rfl, ?_⟩
          simp [Reservation.isHeld, ReserveContext.first]

theorem reserveOne_ok (h : LoopState ctx s (line :: others) (item :: rest)) (hfree : line.reserved < line.remaining) :
    ∃ s', reserveOne ctx s line item = .ok (s', ⟨placedId ctx item, .reserved, line.id, item.1, ctx.leaseExpiresAt⟩) ∧
      s'.grants = updateAt Grant.id line.id Grant.reserveOne s.grants ∧
      (∀ owner' c, s'.Holds owner' c ↔ s.Holds owner' c ∨ (owner' = ctx.owner ∧ c = item.1)) ∧
      LoopState ctx s' ({ line with reserved := line.reserved + 1 } :: others) rest := by
  obtain ⟨hupdate, hchecked⟩ := h.updateGrant_ok hfree
  have hwaits := h.waits item mem_cons_self
  obtain ⟨g, hg, hgid, -⟩ := counters_reserveOne h.counters h.lineIds _ mem_cons_self
  have hplace := @placeReservation_ok
    { s with grants := updateAt Grant.id line.id Grant.reserveOne s.grants } ctx line item
    ⟨g, hg, hgid⟩ hwaits
  obtain ⟨hids, hrevisions, hholds⟩ := placedRows_spec h.constrained hwaits line.id
    (updateAt Grant.id line.id Grant.reserveOne s.grants)
    (s.ledger ++ [⟨line.id, some (placedId ctx item), .reserve, -1, line.remaining - (line.reserved + 1)⟩])
  refine ⟨⟨updateAt Grant.id line.id Grant.reserveOne s.grants, placedRows ctx line.id item s.reservations,
    s.ledger ++ [⟨line.id, some (placedId ctx item), .reserve, -1, line.remaining - (line.reserved + 1)⟩]⟩,
    ?_, rfl, hholds, ⟨⟨?_, hids, hrevisions, hchecked⟩, counters_reserveOne h.counters h.lineIds, h.lineIds, ?_,
      (nodup_cons.mp h.distinct).2, (nodup_cons.mp h.newIds).2⟩⟩
  · have hentry : (-1 : Int) ≠ 0 ∧ 0 ≤ line.remaining - (line.reserved + 1) := ⟨by omega, by omega⟩
    unfold reserveOne
    rw [hupdate]
    dsimp only [Except.bind]
    rw [hplace]
    dsimp only
    unfold UsageTables.addEntry
    rw [if_pos hentry]
    rfl
  · have hkey : (updateAt Grant.id line.id Grant.reserveOne s.grants).map Grant.id =
        s.grants.map Grant.id := map_key_updateAt fun _ hr => hr
    dsimp only
    rw [hkey]
    exact h.constrained.grantIds
  · -- the other candidates wait with what they waited with
    intro item' hitem'
    have hne : item'.1 ≠ item.1 := fun heq => (nodup_cons.mp h.distinct).1 (heq ▸ mem_map_of_mem hitem')
    have hwaits' := h.waits item' (mem_cons_of_mem _ hitem')
    unfold Waits at hwaits hwaits' ⊢
    unfold placedRows
    cases hold' : item'.2 with
    | some old' =>
      rw [hold'] at hwaits'
      obtain ⟨hmem', hrest'⟩ := hwaits'
      cases hold : item.2 with
      | none => exact ⟨mem_append_left _ hmem', hrest'⟩
      | some old =>
        rw [hold] at hwaits
        refine ⟨mem_updateAt_of_ne hmem' fun hid => hne ?_, hrest'⟩
        have hsame := inj_on_of_nodup_map h.constrained.reservationIds hmem' hwaits.1 hid
        rw [← hrest'.2.2, hsame, hwaits.2.2.2]
    | none =>
      rw [hold'] at hwaits'
      obtain ⟨hnone', hfresh'⟩ := hwaits'
      rw [findReservation_eq_none] at hnone'
      unfold UsageTables.getReservation at hfresh'
      rw [rowAt_eq_none] at hfresh'
      dsimp only
      rw [findReservation_eq_none, UsageTables.getReservation, rowAt_eq_none]
      cases hold : item.2 with
      | none =>
        refine ⟨fun r hr howner => ?_, fun r hr => ?_⟩
        · rcases mem_append.mp hr with hr | hr
          · exact hnone' r hr howner
          · obtain rfl := mem_singleton.mp hr
            exact fun heq => hne heq.symm
        · rcases mem_append.mp hr with hr | hr
          · exact hfresh' r hr
          · obtain rfl := mem_singleton.mp hr
            exact fun heq => (nodup_cons.mp h.newIds).1 (mem_map.mpr ⟨item', hitem', heq.symm⟩)
      | some old =>
        rw [hold] at hwaits
        have hagain : Reservation.inState .released (ctx.again line.id) old = ctx.again line.id old :=
          Reservation.inState_of_eq hwaits.2.1
        refine ⟨fun r hr howner => ?_, fun r hr => ?_⟩
        · rcases mem_updateAt.mp hr with ⟨r₀, hr₀, hid, rfl⟩ | ⟨hr, -⟩
          · obtain rfl := inj_on_of_nodup_map h.constrained.reservationIds hr₀ hwaits.1 hid
            rw [hagain]
            exact fun heq => hne (heq.symm.trans hwaits.2.2.2)
          · exact hnone' r hr howner
        · rcases mem_updateAt.mp hr with ⟨r₀, hr₀, hid, rfl⟩ | ⟨hr, -⟩
          · obtain rfl := inj_on_of_nodup_map h.constrained.reservationIds hr₀ hwaits.1 hid
            rw [hagain]
            exact hfresh' r₀ hr₀
          · exact hfresh' r hr

theorem reservePending_ok {pending : List Pending} (h : LoopState ctx s lines pending)
    (hcredits : pending.length ≤ (creditsOf lines).length) : ∃ s' out, reservePending ctx pending lines s = .ok (s', out) ∧
      out.map ReservationPayload.candidate = pending.map Prod.fst ∧
      out.map ReservationPayload.grantId = (creditsOf lines).take pending.length ∧
      s'.grants = s.grants.map (fun g =>
        { g with reserved := g.reserved + out.countP fun q => q.grantId = g.id }) ∧
      (∀ owner' c, s'.Holds owner' c ↔
        s.Holds owner' c ∨ (owner' = ctx.owner ∧ c ∈ pending.map Prod.fst)) ∧ s'.Constrained := by
  induction pending generalizing s lines with
  | nil => refine ⟨s, [], rfl, rfl, by simp, by simp, by simp, h.constrained⟩
  | cons item rest ih =>
    have hsub := dropWhile_sublist (l := lines) fun line : GrantLine => decide (line.remaining - line.reserved ≤ 0)
    have hhead := List.head?_dropWhile_not (fun line : GrantLine => decide (line.remaining - line.reserved ≤ 0)) lines
    rw [← creditsOf_dropWhile] at hcredits ⊢
    rw [reservePending]
    cases hdrop : lines.dropWhile fun line => line.remaining - line.reserved ≤ 0 with
    | nil =>
      rw [hdrop] at hcredits
      simp [creditsOf] at hcredits
    | cons line others =>
      rw [hdrop] at hsub hhead hcredits
      have hfree : line.reserved < line.remaining := by
        have hpositive : ¬line.remaining - line.reserved ≤ 0 := by simpa using hhead
        omega
      rw [creditsOf_take others hfree] at hcredits ⊢
      obtain ⟨s₁, hone, hgrants₁, hholds₁, hstate₁⟩ := reserveOne_ok (h.sublist hsub) hfree
      obtain ⟨s₂, more, hmore, hcandidates, hgrantIds, hgrants, hholds, hconstrained⟩ :=
        ih hstate₁ (by simpa using hcredits)
      refine ⟨s₂, ⟨placedId ctx item, .reserved, line.id, item.1, ctx.leaseExpiresAt⟩ :: more, ?_, ?_, ?_, ?_, ?_, hconstrained⟩
      · dsimp only
        rw [hone]
        dsimp only [Except.bind]
        rw [hmore]
        rfl
      · rw [map_cons, map_cons, hcandidates]
      · rw [map_cons, hgrantIds, length_cons, take_succ_cons]
      · rw [hgrants, hgrants₁, updateAt, map_map]
        refine map_congr_left fun g _ => ?_
        rw [countP_cons]
        by_cases hid : g.id = line.id
        · simp only [Function.comp_apply, hid, if_true, Grant.reserveOne, decide_true]
          congr 1
          push_cast
          omega
        · simp only [Function.comp_apply, hid, if_false, Ne.symm hid, decide_false]
          congr 1
      · intro owner' c
        rw [hholds, hholds₁, map_cons, mem_cons]
        tauto

/-! ## The order of the grants -/

def availableGrants (collation : Collation) (s : UsageTables) (owner : UsageOwner) (now : Int) : List Grant :=
  (s.grants.filter fun g => g.AvailableTo owner now).insertionSort fun a b => a.rank collation ≤ b.rank collation

def Grant.asLine (g : Grant) : GrantLine := ⟨g.id, g.remaining, g.reserved⟩

variable (owner : UsageOwner) {now : Int}

theorem lockAvailableGrants_eq (now : Int) :
    lockAvailableGrants collation s owner now = (availableGrants collation s owner now).map Grant.asLine := rfl

theorem mem_availableGrants {owner : UsageOwner} :
    g ∈ availableGrants collation s owner now ↔ g ∈ s.grants ∧ g.AvailableTo owner now := by
  unfold availableGrants
  rw [mem_insertionSort, mem_filter, decide_eq_true_iff]

theorem expiresAt_le_of_rank_le {a b : Grant} (h : a.rank collation ≤ b.rank collation) : a.expiresAt ≤ b.expiresAt := by
  rcases Prod.Lex.le_iff.mp h with hlt | ⟨heq, -⟩
  · exact le_of_lt hlt
  · exact le_of_eq heq

theorem mem_creditsOf {id : String} (h : id ∈ creditsOf lines) : ∃ line ∈ lines, line.id = id := by
  obtain ⟨line, hline, hid⟩ := mem_flatMap.mp h
  exact ⟨line, hline, (eq_of_mem_replicate hid).symm⟩

theorem count_before (hnodup : (lines.map GrantLine.id).Nodup)
    {front back : List GrantLine} {line line' : GrantLine} (hlines : lines = front ++ line :: back)
    (hline' : line' ∈ back) {before rest : List String}
    (hcredits : creditsOf lines = before ++ line'.id :: rest) :
    before.count line.id = (line.remaining - line.reserved).toNat := by
  subst hlines
  rw [map_append, map_cons, nodup_append] at hnodup
  obtain ⟨-, hback, hdisjoint⟩ := hnodup
  obtain ⟨hlineBack, -⟩ := nodup_cons.mp hback
  have hsplit : creditsOf (front ++ line :: back) =
      (creditsOf front ++ List.replicate (line.remaining - line.reserved).toNat line.id) ++ creditsOf back := by
    simp [creditsOf]
  have hfront : ∀ id ∈ (line :: back).map GrantLine.id, id ∉ creditsOf front := by
    intro id hid hmem
    obtain ⟨x, hx, rfl⟩ := mem_creditsOf hmem
    exact hdisjoint x.id (mem_map_of_mem hx) x.id hid rfl
  have hlater : line'.id ∈ (line :: back).map GrantLine.id :=
    mem_map_of_mem (mem_cons_of_mem _ hline')
  have hnot : line'.id ∉ creditsOf front ++ List.replicate (line.remaining - line.reserved).toNat line.id := by
    intro hmem
    rcases mem_append.mp hmem with hmem | hmem
    · exact hfront _ hlater hmem
    · exact hlineBack (eq_of_mem_replicate hmem ▸ mem_map_of_mem hline')
  rw [hsplit] at hcredits
  obtain ⟨middle, rfl⟩ := exists_append_of_not_mem hcredits hnot
  -- what is taken after the credits of the grant is of the later ones
  have hmiddle : line.id ∉ middle := by
    intro hmem
    rw [append_assoc _ middle] at hcredits
    have hback := append_cancel_left hcredits
    obtain ⟨x, hx, hid⟩ := mem_creditsOf (hback ▸ mem_append_left _ hmem)
    exact hlineBack (hid ▸ mem_map_of_mem hx)
  rw [count_append, count_append, count_eq_zero.mpr hmiddle,
    count_eq_zero.mpr (hfront _ (by simp)), count_replicate_self]
  omega

theorem earliest_first (hs : s.Constrained) {owner : UsageOwner}
    {out : List ReservationPayload}
    (hout : out.map ReservationPayload.grantId = (creditsOf (lockAvailableGrants collation s owner now)).take out.length)
    {before rest : List ReservationPayload} {p : ReservationPayload} (hsplit : out = before ++ p :: rest)
    {g' : Grant} (hg : g ∈ s.grants) (hg' : g' ∈ s.grants) (havailable : g.AvailableTo owner now)
    (hid : g'.id = p.grantId) (hexpires : g.expiresAt < g'.expiresAt) :
    g.reserved + before.countP (fun q => q.grantId = g.id) = g.remaining := by
  have hlines := @lockAvailableGrants_eq collation s owner now
  have hids : ((lockAvailableGrants collation s owner now).map GrantLine.id).Nodup := by
    rw [hlines, map_map]
    have hperm := perm_insertionSort (fun a b : Grant => a.rank collation ≤ b.rank collation)
      (s.grants.filter fun g => g.AvailableTo owner now)
    exact (hperm.map _).nodup_iff.mpr (hs.grantIds.sublist (filter_sublist.map Grant.id))
  have hcredits : creditsOf (lockAvailableGrants collation s owner now) =
      before.map ReservationPayload.grantId ++ g'.id :: (rest.map ReservationPayload.grantId ++
          (creditsOf (lockAvailableGrants collation s owner now)).drop out.length) := by
    calc creditsOf (lockAvailableGrants collation s owner now)
      _ = (creditsOf (lockAvailableGrants collation s owner now)).take out.length ++
          (creditsOf (lockAvailableGrants collation s owner now)).drop out.length :=
        (take_append_drop _ _).symm
      _ = _ := by
        rw [← hout]
        conv_lhs => rw [hsplit]
        simp [hid, hsplit]
  -- the grant that is used is available, and stands after the earlier one
  have hg'mem : g' ∈ availableGrants collation s owner now := by
    have hmem : g'.id ∈ creditsOf (lockAvailableGrants collation s owner now) := by
      rw [hcredits]
      simp
    obtain ⟨line, hline, hlineId⟩ := mem_creditsOf hmem
    rw [hlines] at hline
    obtain ⟨x, hx, rfl⟩ := mem_map.mp hline
    rw [← inj_on_of_nodup_map hs.grantIds (mem_availableGrants.mp hx).1 hg' hlineId]
    exact hx
  obtain ⟨front, back, hsorted⟩ := append_of_mem (mem_availableGrants.mpr ⟨hg, havailable⟩ :
    g ∈ availableGrants collation s owner now)
  have hpairwise : (availableGrants collation s owner now).Pairwise fun a b =>
      a.rank collation ≤ b.rank collation :=
    pairwise_insertionSort (fun a b : Grant => a.rank collation ≤ b.rank collation) _
  rw [hsorted] at hg'mem hpairwise
  have hback : g' ∈ back := by
    rcases mem_append.mp hg'mem with hmem | hmem
    · have hle := expiresAt_le_of_rank_le ((pairwise_append.mp hpairwise).2.2 g' hmem g (by simp))
      omega
    · rcases mem_cons.mp hmem with rfl | hmem
      · omega
      · exact hmem
  rw [hlines, hsorted, map_append, map_cons] at hids hcredits
  have hcount := count_before hids rfl (mem_map_of_mem hback) hcredits
  have hfree := havailable.2.2
  have hcountP : before.countP (fun q => q.grantId = g.id) = (before.map ReservationPayload.grantId).count g.id := by
    rw [List.count, countP_map]
    refine countP_congr fun q _ => ?_
    simp
  rw [hcountP]
  have hcount' : (before.map ReservationPayload.grantId).count g.id = (g.remaining - g.reserved).toNat := hcount
  omega

/-! ## A batch -/

theorem length_creditsOf (now : Int) :
    ((creditsOf (lockAvailableGrants collation s owner now)).length : Int) = s.balance owner now := by
  have hlength : ∀ grants : List Grant, (∀ g ∈ grants, g.reserved < g.remaining) →
      ((creditsOf (grants.map Grant.asLine)).length : Int) = (grants.map fun g => g.remaining - g.reserved).sum := by
    intro grants hfree
    induction grants with
    | nil => rfl
    | cons g grants ih =>
      have hg := hfree g mem_cons_self
      rw [map_cons, creditsOf_cons, length_append, length_replicate, map_cons,
        sum_cons, ← ih fun g' hg' => hfree g' (mem_cons_of_mem g hg')]
      simp only [Grant.asLine]
      push_cast
      omega
  have hperm : (availableGrants collation s owner now).Perm
      (s.grants.filter fun g => g.AvailableTo owner now) := perm_insertionSort _ _
  rw [lockAvailableGrants_eq, hlength _ fun g hg => (mem_availableGrants.mp hg).2.2.2, UsageTables.balance]
  exact (hperm.map _).sum_eq

theorem available_eq (now : Int) :
    ((lockAvailableGrants collation s owner now).map fun line => line.remaining - line.reserved).sum = s.balance owner now := by
  have hperm : (availableGrants collation s owner now).Perm
      (s.grants.filter fun g => g.AvailableTo owner now) := perm_insertionSort _ _
  rw [lockAvailableGrants_eq, map_map, UsageTables.balance]
  exact (hperm.map _).sum_eq

theorem reserve_allocated (hs : s.Constrained) {normalized : List SourceRevisionCandidate}
    (hnodup : normalized.Nodup) (hfresh : ∀ c ∈ normalized, s.getReservation (ctx.newId c) = none)
    (hnewIds : (normalized.map ctx.newId).Nodup) (now : Int) {chosen : List Pending}
    (hchosen : chosen <+: pendingOf s ctx.owner normalized) (hbalance : (chosen.length : Int) ≤ s.balance ctx.owner now) :
    ∃ s' out, reservePending ctx chosen (lockAvailableGrants collation s ctx.owner now) s = .ok (s', out) ∧
      Allocated s s' ctx.owner now (chosen.map Prod.fst) out := by
  obtain ⟨hdistinct, hpending⟩ := @pendingOf_spec s ctx.owner normalized hnodup
  have hlines := @lockAvailableGrants_eq collation s ctx.owner now
  have hids : ((lockAvailableGrants collation s ctx.owner now).map GrantLine.id).Nodup := by
    rw [hlines, map_map]
    have hperm := perm_insertionSort (fun a b : Grant => a.rank collation ≤ b.rank collation)
      (s.grants.filter fun g => g.AvailableTo ctx.owner now)
    exact (hperm.map _).nodup_iff.mpr (hs.grantIds.sublist (filter_sublist.map Grant.id))
  have hstate : LoopState ctx s (lockAvailableGrants collation s ctx.owner now) chosen := by
    refine ⟨hs, fun line hline => ?_, hids, fun item hitem => ?_, hdistinct.sublist (hchosen.sublist.map _), ?_⟩
    · rw [hlines] at hline
      obtain ⟨g, hg, rfl⟩ := mem_map.mp hline
      exact ⟨g, (mem_availableGrants.mp hg).1, rfl, rfl, rfl⟩
    · have hmem := hchosen.subset hitem
      unfold Waits
      cases hold : item.2 with
      | some old => exact (hpending item hmem).2 old hold
      | none =>
        obtain ⟨c, hcmem, hc⟩ := mem_map.mp (mem_filter.mp hmem).1
        rw [← hc] at hold ⊢
        exact ⟨hold, hfresh c hcmem⟩
    · have hall : (normalized.map fun c => (c, s.findReservation ctx.owner c)).map
          (fun item : Pending => ctx.newId item.1) = normalized.map ctx.newId := by
        rw [map_map]
        rfl
      have hpendingIds : ((pendingOf s ctx.owner normalized).map fun item => ctx.newId item.1).Nodup :=
        (hall ▸ hnewIds).sublist (filter_sublist.map _)
      exact hpendingIds.sublist (hchosen.sublist.map _)
  have hlength := @length_creditsOf collation s ctx.owner now
  obtain ⟨s', out, hrun, hcandidates, hgrantIds, hgrants, hholds, hconstrained⟩ :=
    reservePending_ok hstate (by omega)
  have houtLength : out.length = chosen.length := by
    rw [← length_map (f := ReservationPayload.candidate), hcandidates, length_map]
  refine ⟨s', out, hrun, hcandidates, fun p hp => ?_, ?_, hgrants, hholds, hconstrained⟩
  · have hmem : p.grantId ∈ creditsOf (lockAvailableGrants collation s ctx.owner now) := by
      have hfront : p.grantId ∈ out.map ReservationPayload.grantId := mem_map_of_mem hp
      rw [hgrantIds] at hfront
      exact mem_of_mem_take hfront
    obtain ⟨line, hline, hid⟩ := mem_creditsOf hmem
    rw [hlines] at hline
    obtain ⟨g, hg, rfl⟩ := mem_map.mp hline
    exact ⟨g, (mem_availableGrants.mp hg).1, hid, (mem_availableGrants.mp hg).2⟩
  · intro before p rest hsplit g hg g' hg' havailable hid hexpires
    rw [← houtLength] at hgrantIds
    exact earliest_first hs hgrantIds hsplit hg hg' havailable hid hexpires

theorem allocated_nil (hs : s.Constrained) (owner : UsageOwner) (now : Int) : Allocated s s owner now [] [] where
  candidates := rfl
  available := by simp
  earliest := by simp
  grants := by simp
  held := by simp
  constrained := hs

/-- A batch over distinct revisions: `reject_all` takes all that waits or fails, and
`process_affordable_in_stable_order` takes the beginning of it. -/
theorem reserveNormalized_spec (hs : s.Constrained) {normalized : List SourceRevisionCandidate}
    (hnodup : normalized.Nodup) (hfresh : ∀ c ∈ normalized, s.getReservation (ctx.newId c) = none)
    (hnewIds : (normalized.map ctx.newId).Nodup) (now : Int) :
    (s.balance ctx.owner now < (s.waiting ctx.owner normalized).length →
      reserveNormalized collation s ctx now "reject_all" normalized =
        .error (.commercialPolicy quotaExhausted "Số dư lượt tra cứu không đủ cho batch đã chọn." 409
          [("required", .int (s.waiting ctx.owner normalized).length), ("available", .int (s.balance ctx.owner now))])) ∧
    ((s.waiting ctx.owner normalized).length ≤ s.balance ctx.owner now →
      ∃ s' out, reserveNormalized collation s ctx now "reject_all" normalized =
          .ok (s', existingOf s ctx.owner normalized ++ out) ∧
        Allocated s s' ctx.owner now (s.waiting ctx.owner normalized) out) ∧
    ∃ s' out, reserveNormalized collation s ctx now "process_affordable_in_stable_order" normalized =
        .ok (s', existingOf s ctx.owner normalized ++ out) ∧
      Allocated s s' ctx.owner now ((s.waiting ctx.owner normalized).take (s.balance ctx.owner now).toNat) out := by
  have hwaiting : (s.waiting ctx.owner normalized).length = (pendingOf s ctx.owner normalized).length := length_map _
  have hnonneg : 0 ≤ s.balance ctx.owner now := by
    rw [← @length_creditsOf collation]
    omega
  unfold reserveNormalized
  dsimp only
  rw [available_eq, hwaiting]
  by_cases hnil : normalized = []
  · subst hnil
    have hempty : (pendingOf s ctx.owner []).length = 0 := rfl
    rw [hempty]
    simp only [if_true]
    refine ⟨fun h => absurd h (by push_cast; omega), fun _ => ⟨s, [], rfl, allocated_nil hs _ _⟩, s, [], rfl, ?_⟩
    have htake : (s.waiting ctx.owner []).take (s.balance ctx.owner now).toNat = [] := by
      simp [UsageTables.waiting, pendingOf]
    rw [htake]
    exact allocated_nil hs _ _
  simp only [if_neg hnil]
  have hreject : ¬("reject_all" = "blocked_decision" ∧ 1 < normalized.length) := fun h => absurd h.1 (by decide)
  have hafford : ¬("process_affordable_in_stable_order" = "blocked_decision" ∧ 1 < normalized.length) :=
    fun h => absurd h.1 (by decide)
  have hrejectKnown : ¬"reject_all" ∉ partialBatchPolicies := by decide
  have haffordKnown : ¬"process_affordable_in_stable_order" ∉ partialBatchPolicies := by decide
  simp only [if_neg hreject, if_neg hrejectKnown, if_neg hafford, if_neg haffordKnown]
  refine ⟨fun hshort => ?_, fun henough => ?_, ?_⟩
  · rw [if_pos ⟨hshort, by decide⟩]
  · rw [if_neg fun h => absurd h.1 (by omega), if_neg (by decide)]
    obtain ⟨s', out, hrun, hallocated⟩ := @reserve_allocated collation s ctx hs normalized hnodup
      hfresh hnewIds now _ (prefix_refl _) henough
    rw [hrun]
    exact ⟨s', out, rfl, hallocated⟩
  · rw [if_neg fun h => absurd h.2 (by decide), if_pos trivial]
    obtain ⟨s', out, hrun, hallocated⟩ := @reserve_allocated collation s ctx hs normalized hnodup
      hfresh hnewIds now _ ( take_prefix (s.balance ctx.owner now).toNat _) (by rw [length_take]; omega)
    rw [hrun]
    rw [UsageTables.waiting, ← map_take]
    exact ⟨s', out, rfl, hallocated⟩

/-- What a call of `reserve_source_fetch_batch` takes. Under `reject_all` a batch larger than the balance fails and changes
nothing, and another is taken whole; under `process_affordable_in_stable_order` the beginning of what waits is taken, up to
the balance. Revisions reserved already come back as they are. -/
theorem credits_in_order (t : PyText) (collation : Collation) (s : UsageTables) (owner : UsageOwner)
    (candidates : List CandidateInput) (jobKey : Scalar) (leaseSeconds now later : Int)
    (newId : SourceRevisionCandidate → String) (normalized : List SourceRevisionCandidate)
    (hs : s.Constrained) (hfresh : ∀ c ∈ normalized, s.getReservation (newId c) = none)
    (hnewIds : (normalized.map newId).Nodup) (hjobKey : jobKey.orEmptyText ≠ "" ∧ jobKey.orEmptyText.length ≤ 200)
    (hnormalized : listMissingSourceRevisions t candidates = .ok normalized) :
    (s.balance owner now < (s.waiting owner normalized).length →
      (∃ e, reserveSourceFetchBatch t collation s owner candidates jobKey "reject_all" leaseSeconds now
        later newId = .error e) ∧
      ∀ s', Step t collation s (.reserve owner candidates jobKey "reject_all" leaseSeconds now later newId) s' → s' = s) ∧
    ((s.waiting owner normalized).length ≤ s.balance owner now →
      ∃ s' out, reserveSourceFetchBatch t collation s owner candidates jobKey "reject_all" leaseSeconds now
          later newId = .ok (s', existingOf s owner normalized ++ out) ∧
        Allocated s s' owner now (s.waiting owner normalized) out) ∧
    ∃ s' out, reserveSourceFetchBatch t collation s owner candidates jobKey
        "process_affordable_in_stable_order" leaseSeconds now later newId = .ok (s', existingOf s owner normalized ++ out) ∧
      Allocated s s' owner now ((s.waiting owner normalized).take (s.balance owner now).toNat) out := by
  have hbatch : ∀ policyKind, reserveSourceFetchBatch t collation s owner candidates jobKey policyKind
      leaseSeconds now later newId = reserveNormalized collation s
        ⟨owner, jobKey.orEmptyText, later + max 60 leaseSeconds, newId⟩ now policyKind normalized := by
    intro policyKind
    unfold reserveSourceFetchBatch
    rw [if_neg (by rw [not_or]; exact ⟨hjobKey.1, by omega⟩), hnormalized]
    rfl
  obtain ⟨hshort, henough, hafford⟩ := @reserveNormalized_spec collation s
    ⟨owner, jobKey.orEmptyText, later + max 60 leaseSeconds, newId⟩ hs normalized
    (listMissing_spec hnormalized).1 hfresh hnewIds now
  rw [hbatch, hbatch]
  refine ⟨fun h => ⟨⟨_, hshort h⟩, fun s' hstep => ?_⟩, henough, hafford⟩
  cases hstep with
  | rolledBack => rfl
  | committed hrun =>
    rw [UsageCommand.run, hbatch, hshort h] at hrun
    cases hrun

def sampleGrants : UsageTables :=
  let g (id : String) (expiresAt : Int) : Grant :=
    ⟨id, sampleOwner, 1, 1, 0, "plan", none, "r1",
      "0000000000000000000000000000000000000000000000000000000000000000", 1, expiresAt⟩
  ⟨[g "late" 300, g "early" 200], [], []⟩

theorem sampleGrants_constrained : sampleGrants.Constrained where
  grantIds := by decide
  reservationIds := by decide
  revisions := by decide
  checked := by decide

theorem credits_in_order_sample :
    let asked := ["r1", "r2", "r3"].map (SourceRevisionCandidate.mk "muasamcong" "PLAN" "IB1")
    ∃ s' out, reserveSourceFetchBatch .plain .codePoints sampleGrants sampleOwner
        (asked.map CandidateInput.made) (.str "job-1") "process_affordable_in_stable_order" 900 100 100
        SourceRevisionCandidate.sourceRevision = .ok (s', out) ∧
      Allocated sampleGrants s' sampleOwner 100 (asked.take 2) out := by
  intro asked
  have hbalance : sampleGrants.balance sampleOwner 100 = 2 := by decide
  have hwaiting : sampleGrants.waiting sampleOwner asked = asked := by decide
  obtain ⟨-, -, s', out, hrun, hallocated⟩ := credits_in_order .plain .codePoints sampleGrants sampleOwner
    (asked.map CandidateInput.made) (.str "job-1") 900 100 100 SourceRevisionCandidate.sourceRevision asked
    sampleGrants_constrained (by decide) (by decide) (by decide) (by decide)
  rw [hbalance, hwaiting] at hallocated
  exact ⟨s', out, hrun, hallocated⟩

end Bidding.Usage
