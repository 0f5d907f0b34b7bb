import Mathlib.Data.List.Nodup
import Mathlib.Order.Lattice
import Mathlib.Algebra.Group.Int.Defs

/-!
# The deliveries of the email outbox

A row is claimed, delivered and finished, each in one step, and a clean-up releases the claims whose workers are gone. A
row has been claimed as often as it counts (`Sound`), and a lost claim never gets its row back (`Run.finish_lost`).
-/

set_option autoImplicit false
set_option linter.unusedSectionVars false

namespace Bidding.Auth.Outbox

open List Option Function

inductive DeliveryStatus where
  | pending
  | sending
  | retry
  | sent
  | failed
  deriving DecidableEq

def DeliveryStatus.Ended (status : DeliveryStatus) : Prop := status = .sent ∨ status = .failed

/-- The ciphertexts of recipient, subject and body; they are stored together. -/
structure Payload where
  recipient : String
  subject : String
  body : String

structure Delivery (τ : Type) where
  payload : Option Payload
  status : DeliveryStatus
  attemptCount : ℕ
  lastErrorCode : Option String
  nextAttemptAt : Option ℤ
  lockedAt : Option ℤ
  lockedBy : Option τ
  acceptedAt : Option ℤ
  createdAt : ℤ
  updatedAt : ℤ

structure Claimed (ι τ : Type) where
  id : ι
  attemptCount : ℕ
  lockToken : τ

inductive SendResult where
  | accepted
  | refused (errorCode : String)

variable {ι τ : Type} [DecidableEq ι] [DecidableEq τ]

namespace Delivery

/-- What `_build_email_delivery_row` inserts. -/
def IsNew (row : Delivery τ) : Prop := row.status = .pending ∧ row.attemptCount = 0 ∧ row.lockedBy = none

variable (row : Delivery τ) (maxAttempts : ℕ) (now : ℤ)

/-- `_store_payload_if_missing`. -/
def storePayload (payload : Payload) : Delivery τ :=
  match row.payload with
  | none => { row with payload := some payload, nextAttemptAt := some (row.nextAttemptAt.getD now), updatedAt := now }
  | some _ => row

/-- The rows a claim selects from, `named` when it is asked for by its id. `EMAIL_OUTBOX_STALE_SECONDS` is
`stale`. -/
def claimable (stale : Option ℤ) (named : Bool) : Bool :=
  (named || row.createdAt ≤ now - 2) && row.payload.isSome && row.attemptCount < maxAttempts &&
    ((row.status = .pending || row.status = .retry) && row.nextAttemptAt.getD 0 ≤ now ||
      row.status = .sending && row.lockedAt.any (· ≤ now - max 60 (min 3600 (stale.getD 300))))

def claim (lockToken : τ) : Delivery τ :=
  { row with
    status := .sending, attemptCount := row.attemptCount + 1, lockedAt := some now, lockedBy := some lockToken
    updatedAt := now }

def finish (claimed : Claimed ι τ) (result : SendResult) : Delivery τ :=
  if row.status = .sending ∧ row.lockedBy = some claimed.lockToken then
    match result with
    | .accepted =>
      { row with
        status := .sent, lastErrorCode := none, nextAttemptAt := none, acceptedAt := some now
        lockedAt := none, lockedBy := none, updatedAt := now }
    | .refused errorCode =>
      { row with
        status := if claimed.attemptCount < maxAttempts then .retry else .failed
        lastErrorCode := some errorCode
        nextAttemptAt :=
          if claimed.attemptCount < maxAttempts then some (now + min 300 (2 ^ (claimed.attemptCount - 1))) else none
        acceptedAt := none, lockedAt := none, lockedBy := none, updatedAt := now }
  else row

def release (staleBefore : ℤ) : Delivery τ :=
  if row.status = .sending ∧ row.lockedAt.any (· < staleBefore) then
    { row with
      status := if row.attemptCount < maxAttempts then .retry else .failed
      lastErrorCode := some (if row.attemptCount < maxAttempts then "WORKER_INTERRUPTED" else "MAX_ATTEMPTS_EXCEEDED")
      nextAttemptAt := if row.attemptCount < maxAttempts then some now else none
      lockedAt := none, lockedBy := none, updatedAt := now }
  else row

def failMissing (staleBefore : ℤ) : Delivery τ :=
  if (row.status = .pending ∨ row.status = .retry) ∧ row.payload.isNone ∧ row.updatedAt < staleBefore then
    { row with
      status := .failed, lastErrorCode := some "DELIVERY_PAYLOAD_MISSING", nextAttemptAt := none, updatedAt := now }
  else row

/-- `fail_stale_email_deliveries`; an old row is deleted. -/
def clean (staleAfterSeconds retentionDays : ℤ) : Option (Delivery τ) :=
  if row.createdAt < now - max 1 retentionDays * 86400 then none
  else
    let staleBefore := now - max 60 staleAfterSeconds
    some ((row.release maxAttempts now staleBefore).failMissing now staleBefore)

end Delivery

/-- The rows, and the claims that were ever made. -/
structure World (ι τ : Type) where
  rows : ι → Option (Delivery τ)
  claims : List (Claimed ι τ)

def World.finish (w : World ι τ) (maxAttempts : ℕ) (now : ℤ) (claimed : Claimed ι τ) (result : SendResult) : World ι τ :=
  { w with
    rows := update w.rows claimed.id
      ((w.rows claimed.id).map fun row => row.finish maxAttempts now claimed result) }

/-- The transactions. A lock token is a new UUID; which of the claimable rows a claim takes depends on their
order and on the rows other claims have locked. -/
inductive Step (maxAttempts : ℕ) (w : World ι τ) : World ι τ → Prop
  | store (id : ι) (payload : Payload) (now : ℤ) : Step maxAttempts w
        { w with rows := update w.rows id ((w.rows id).map fun row => row.storePayload now payload) }
  | claim (id : ι) (row : Delivery τ) (now : ℤ) (stale : Option ℤ) (named : Bool) (lockToken : τ)
      (hrow : w.rows id = some row) (hclaimable : row.claimable maxAttempts now stale named)
      (hnew : lockToken ∉ w.claims.map Claimed.lockToken) : Step maxAttempts w
        { w with
          rows := update w.rows id (some (row.claim now lockToken))
          claims := w.claims ++ [⟨id, row.attemptCount + 1, lockToken⟩] }
  | finish (claimed : Claimed ι τ) (result : SendResult) (now : ℤ) (hclaimed : claimed ∈ w.claims) :
      Step maxAttempts w (w.finish maxAttempts now claimed result)
  | clean (now staleAfterSeconds retentionDays : ℤ) : Step maxAttempts w
        { w with rows := fun id => (w.rows id).bind fun row => row.clean maxAttempts now staleAfterSeconds retentionDays }

inductive Run (maxAttempts : ℕ) (w : World ι τ) : World ι τ → Prop
  | refl : Run maxAttempts w w
  | step {w' w'' : World ι τ} (hrun : Run maxAttempts w w') (hstep : Step maxAttempts w' w'') : Run maxAttempts w w''

/-- Rows that were inserted and not claimed yet. A row that is inserted later is one of them: no step changes
it before. -/
def World.Start (w : World ι τ) : Prop := w.claims = [] ∧ ∀ id row, w.rows id = some row → row.IsNew

/-! ### What a step does to a row -/

/-- A row that is not claimed: its count stays, an end stays an end, and the lock is given up at most. -/
structure Delivery.Moved (maxAttempts : ℕ) (row row' : Delivery τ) : Prop where
  attempts : row'.attemptCount = row.attemptCount
  ended : row.status.Ended → row'.status = row.status
  waiting : row'.status = .pending ∨ row'.status = .retry →
    row.attemptCount < maxAttempts ∨ row.status = .pending ∨ row.status = .retry
  sending : row'.status = .sending → row.status = .sending ∧ row'.lockedAt = row.lockedAt ∧ row'.lockedBy = row.lockedBy
  holder : row'.lockedBy = row.lockedBy ∨ row'.lockedBy = none

namespace Delivery.Moved

variable {maxAttempts : ℕ} {row row' row'' : Delivery τ} {now : ℤ}

theorem storePayload (payload : Payload) : Moved maxAttempts row (row.storePayload now payload) := by
  unfold Delivery.storePayload
  constructor <;> grind [DeliveryStatus.Ended]

theorem finish {claimed : Claimed ι τ} {result : SendResult}
    (hclaimed : row.lockedBy = some claimed.lockToken → claimed.attemptCount = row.attemptCount) :
    Moved maxAttempts row (row.finish maxAttempts now claimed result) := by
  unfold Delivery.finish
  constructor <;> grind [DeliveryStatus.Ended]

theorem clean {staleAfterSeconds retentionDays : ℤ}
    (h : row.clean maxAttempts now staleAfterSeconds retentionDays = some row') : Moved maxAttempts row row' := by
  unfold Delivery.clean Delivery.release Delivery.failMissing at h
  constructor <;> grind [DeliveryStatus.Ended]

end Delivery.Moved

/-- A row after some claims. -/
structure Delivery.Sound (maxAttempts : ℕ) (claims : List (Claimed ι τ)) (id : ι) (row : Delivery τ) : Prop where
  count : row.attemptCount = (claims.filter (·.id = id)).length
  limit : row.attemptCount ≤ maxAttempts
  waiting : row.status = .pending ∨ row.status = .retry → row.attemptCount < maxAttempts
  sending : row.status = .sending → row.lockedAt.isSome ∧ row.lockedBy.isSome
  holder : ∀ lockToken, row.lockedBy = some lockToken →
    ∃ c ∈ claims, c.lockToken = lockToken ∧ c.id = id ∧ c.attemptCount = row.attemptCount

structure World.Sound (maxAttempts : ℕ) (w : World ι τ) : Prop where
  tokens : (w.claims.map Claimed.lockToken).Nodup
  row : ∀ id row, w.rows id = some row → row.Sound maxAttempts w.claims id

section Steps

variable {maxAttempts : ℕ} {w w' : World ι τ} {id : ι} {row row' : Delivery τ} {claims : List (Claimed ι τ)} {c : Claimed ι τ}

theorem Delivery.Sound.moved (h : row.Sound maxAttempts claims id)
    (hmoved : row.Moved maxAttempts row') : row'.Sound maxAttempts claims id := by
  obtain ⟨hcount, hlimit, hwaiting, hsending, hholder⟩ := h
  obtain ⟨hattempts, -, hwaits, hsends, hby⟩ := hmoved
  constructor <;> grind

theorem lt_of_claimable {now : ℤ} {stale : Option ℤ} {named : Bool} (h : row.claimable maxAttempts now stale named) :
    row.attemptCount < maxAttempts ∧ ¬ row.status.Ended := by
  unfold Delivery.claimable at h
  grind [DeliveryStatus.Ended]

theorem Delivery.Sound.claim {now : ℤ} {lockToken : τ}
    (h : row.Sound maxAttempts claims id) (hlt : row.attemptCount < maxAttempts) :
    (row.claim now lockToken).Sound maxAttempts (claims ++ [⟨id, row.attemptCount + 1, lockToken⟩]) id := by
  have hcount := h.count
  unfold Delivery.claim
  refine ⟨by grind, hlt, by grind, by grind, fun lockToken' hby => ?_⟩
  cases hby
  exact ⟨_, mem_append_right _ mem_cons_self, rfl, rfl, rfl⟩

theorem Delivery.Sound.append (h : row.Sound maxAttempts claims id)
    (hc : c.id ≠ id) : row.Sound maxAttempts (claims ++ [c]) id := by
  obtain ⟨hcount, hlimit, hwaiting, hsending, hholder⟩ := h
  constructor <;> grind

/-- What a step does to the row of `id`. -/
inductive RowStep (maxAttempts : ℕ) (w w' : World ι τ) (id : ι) (row' : Delivery τ) : Prop
  | moved (row : Delivery τ) (hrow : w.rows id = some row) (hmoved : row.Moved maxAttempts row')
      (hclaims : w'.claims = w.claims ∨ ∃ c : Claimed ι τ, c.id ≠ id ∧ w'.claims = w.claims ++ [c])
  | claimed (row : Delivery τ) (now : ℤ) (lockToken : τ) (hrow : w.rows id = some row)
      (hclaimable : row.attemptCount < maxAttempts ∧ ¬ row.status.Ended)
      (hnew : lockToken ∉ w.claims.map Claimed.lockToken) (hrow' : row' = row.claim now lockToken)
      (hclaims : w'.claims = w.claims ++ [⟨id, row.attemptCount + 1, lockToken⟩])

theorem exists_moved_of_map {id' : ι} {f : Delivery τ → Delivery τ}
    (hmoved : ∀ row, w.rows id' = some row → row.Moved maxAttempts (f row))
    (hrow' : update w.rows id' ((w.rows id').map f) id = some row') :
    ∃ row, w.rows id = some row ∧ row.Moved maxAttempts row' := by
  by_cases hid : id = id'
  · subst hid
    rw [update_self] at hrow'
    obtain ⟨row, hrow, rfl⟩ := map_eq_some_iff.mp hrow'
    exact ⟨row, hrow, hmoved row hrow⟩
  · rw [update_of_ne hid] at hrow'
    exact ⟨row', hrow', by constructor <;> grind⟩

section

variable (h : w.Sound maxAttempts)
include h

section

variable (hstep : Step maxAttempts w w')
include hstep

theorem rowStep_of_step (hrow' : w'.rows id = some row') : RowStep maxAttempts w w' id row' := by
  have hsame : row'.Moved maxAttempts row' := by constructor <;> grind
  cases hstep with
  | store id' payload now =>
    obtain ⟨row, hrow, hmoved⟩ := exists_moved_of_map (fun _ _ => .storePayload payload) hrow'
    exact .moved row hrow hmoved (.inl rfl)
  | claim id' row now stale named lockToken hrow hclaimable hnew =>
    have hclaims := lt_of_claimable hclaimable
    grind [update_apply, RowStep]
  | finish claimed result now hclaimed =>
    have hmoves : ∀ row, w.rows claimed.id = some row → row.Moved maxAttempts (row.finish maxAttempts now claimed result) := by
      refine fun row hrow => .finish fun hby => ?_
      -- the claim that holds the row has the same token
      obtain ⟨c, hc, htoken, -, hcount⟩ := (h.row _ _ hrow).holder _ hby
      rw [← inj_on_of_nodup_map h.tokens hc hclaimed htoken]
      exact hcount
    obtain ⟨row, hrow, hmoved⟩ := exists_moved_of_map hmoves hrow'
    exact .moved row hrow hmoved (.inl rfl)
  | clean now staleAfterSeconds retentionDays =>
    obtain ⟨row, hrow, hclean⟩ := bind_eq_some_iff.mp hrow'
    exact .moved row hrow (.clean hclean) (.inl rfl)

/-- A step keeps the attempts within the limit, and a delivery with the last that claimed it. -/
theorem World.Sound.step : w'.Sound maxAttempts := by
  refine ⟨?_, fun id row' hrow' => ?_⟩
  · have htokens := h.tokens
    cases hstep <;> grind [World.finish]
  · cases rowStep_of_step h hstep hrow' with
    | moved row hrow hmoved hclaims =>
      rcases hclaims with hclaims | ⟨c, hc, hclaims⟩ <;> rw [hclaims]
      · exact (h.row id row hrow).moved hmoved
      · exact ((h.row id row hrow).moved hmoved).append hc
    | claimed row now lockToken hrow hclaimable _ hclaim hclaims =>
      rw [hclaim, hclaims]
      exact (h.row id row hrow).claim hclaimable.1

/-- An end stays an end while the row is there. -/
theorem Step.ended {status : DeliveryStatus}
    (hended : status.Ended) (hstatus : ∀ row, w.rows id = some row → row.status = status)
    (hrow' : w'.rows id = some row') : row'.status = status := by
  cases rowStep_of_step h hstep hrow' with
  | moved row hrow hmoved _ =>
    rw [← hstatus row hrow] at hended ⊢
    exact hmoved.ended hended
  | claimed row _ _ hrow hclaimable _ _ _ => exact absurd (hstatus row hrow ▸ hended) hclaimable.2

/-- The row of a claim is still held by it. -/
def World.Holds (w : World ι τ) (c : Claimed ι τ) : Prop :=
  ∃ row, w.rows c.id = some row ∧ row.status = .sending ∧ row.lockedBy = some c.lockToken

/-- A claim that has lost its row does not get it back. -/
theorem Step.lost (hc : c ∈ w.claims) (hlost : ¬ w.Holds c) : ¬ w'.Holds c := by
  rintro ⟨row', hrow', hsending, hby⟩
  cases rowStep_of_step h hstep hrow' with
  | moved row hrow hmoved _ =>
    obtain ⟨hsending', -, hsame⟩ := hmoved.sending hsending
    exact hlost ⟨row, hrow, hsending', hsame ▸ hby⟩
  | claimed row now lockToken hrow _ hnew hclaim _ =>
    rw [hclaim] at hby
    cases hby
    exact hnew (mem_map_of_mem hc)

end

end

theorem finish_of_lost (hlost : ¬ w.Holds c) (now : ℤ) (result : SendResult) : w.finish maxAttempts now c result = w := by
  have hrows : update w.rows c.id ((w.rows c.id).map fun row => row.finish maxAttempts now c result) = w.rows := by
    rw [update_eq_self_iff]
    cases hrow : w.rows c.id with
    | none => rfl
    | some row =>
      refine congrArg some (if_neg fun hheld => hlost ⟨row, hrow, hheld⟩)
  unfold World.finish
  rw [hrows]

/-- The row waits, and from some time on it may be claimed, or a claim holds it, and from some time on the
clean-up releases it. -/
def Delivery.Alive (maxAttempts : ℕ) (claims : List (Claimed ι τ)) (id : ι) (row : Delivery τ) : Prop :=
  ((row.status = .pending ∨ row.status = .retry) ∧
      ∃ since, ∀ now ≥ since, ∀ stale named, row.claimable maxAttempts now stale named) ∨
    row.status = .sending ∧ (∃ c ∈ claims, row.lockedBy = some c.lockToken ∧ c.id = id) ∧
      ∀ staleAfterSeconds, ∃ since, ∀ now ≥ since, ∀ retentionDays row',
        row.clean maxAttempts now staleAfterSeconds retentionDays = some row' → row'.status ≠ .sending

theorem Delivery.Sound.alive (h : row.Sound maxAttempts claims id)
    (hpayload : row.payload.isSome) (hends : ¬ row.status.Ended) : row.Alive maxAttempts claims id := by
  by_cases hwaits : row.status = .pending ∨ row.status = .retry
  · refine .inl ⟨hwaits, max (row.createdAt + 2) (row.nextAttemptAt.getD 0), fun now hnow stale named => ?_⟩
    have hlt := h.waiting hwaits
    unfold Delivery.claimable
    grind
  · have hsending : row.status = .sending := by
      cases hstatus : row.status <;> grind [DeliveryStatus.Ended]
    obtain ⟨hat, hby⟩ := h.sending hsending
    obtain ⟨at', hat⟩ := isSome_iff_exists.mp hat
    obtain ⟨lockToken, hby⟩ := isSome_iff_exists.mp hby
    obtain ⟨c, hc, rfl, hid, -⟩ := h.holder lockToken hby
    refine .inr ⟨hsending, ⟨c, hc, hby, hid⟩, fun staleAfterSeconds => ⟨at' + max 60 staleAfterSeconds + 1, ?_⟩⟩
    intro now hnow _ row' hclean
    unfold Delivery.clean Delivery.release Delivery.failMissing at hclean
    grind

end Steps

section Runs

variable {maxAttempts : ℕ} {w w' : World ι τ}

theorem World.Start.sound (hmax : 0 < maxAttempts) (h : w.Start) : w.Sound maxAttempts := by
  obtain ⟨hclaims, hnew⟩ := h
  unfold Delivery.IsNew at hnew
  refine ⟨by simp [hclaims], fun id row hrow => ?_⟩
  have hrow := hnew id row hrow
  constructor <;> grind

section

variable (hrun : Run maxAttempts w w')
include hrun

theorem Run.sound (h : w.Sound maxAttempts) : w'.Sound maxAttempts := by
  induction hrun with
  | refl => exact h
  | step _ hstep ih => exact ih.step hstep

theorem Run.ended (h : w.Sound maxAttempts) {id : ι} {row : Delivery τ}
    (hrow : w.rows id = some row) (hended : row.status.Ended) {row' : Delivery τ} (hrow' : w'.rows id = some row') :
    row'.status = row.status := by
  induction hrun generalizing row' with
  | refl => grind
  | step hrun hstep ih => exact hstep.ended (hrun.sound h) hended (fun _ => ih) hrow'

theorem Run.lost (h : w.Sound maxAttempts) {c : Claimed ι τ} (hc : c ∈ w.claims)
    (hlost : ¬ w.Holds c) : c ∈ w'.claims ∧ ¬ w'.Holds c := by
  induction hrun with
  | refl => exact ⟨hc, hlost⟩
  | step hrun hstep ih =>
    refine ⟨?_, hstep.lost (hrun.sound h) ih.1 ih.2⟩
    have hmem := ih.1
    cases hstep <;> grind [World.finish]

end

/-- Deliveries end, and late workers change nothing. -/
theorem deliveries_end {start : World ι τ} (hmax : 0 < maxAttempts) (hstart : start.Start)
    (hreached : Run maxAttempts start w) : (∀ id row, w.rows id = some row →
      row.attemptCount = (w.claims.filter (·.id = id)).length ∧ row.attemptCount ≤ maxAttempts ∧
      (row.payload.isSome → ¬ row.status.Ended → row.Alive maxAttempts w.claims id) ∧
      (row.status.Ended → ∀ w', Run maxAttempts w w' → ∀ row', w'.rows id = some row' → row'.status = row.status)) ∧
    ∀ c ∈ w.claims, ¬ w.Holds c → ∀ w', Run maxAttempts w w' → ∀ now result, w'.finish maxAttempts now c result = w' := by
  have h := hreached.sound (hstart.sound hmax)
  refine ⟨fun id row hrow => ?_, fun c hc hlost w' hrun now result => ?_⟩
  · have hsound := h.row id row hrow
    exact ⟨hsound.count, hsound.limit, hsound.alive, fun hended w' hrun row' => hrun.ended h hrow hended⟩
  · exact finish_of_lost (hrun.lost h hc hlost).2 now result

end Runs

def sampleRow : Delivery ℕ := ⟨some ⟨"r", "s", "b"⟩, .pending, 0, none, none, none, none, none, 0, 0⟩

def sampleWorld : World ℕ ℕ := ⟨update (fun _ => none) 7 (some sampleRow), []⟩

theorem sampleWorld_start : sampleWorld.Start := by
  refine ⟨rfl, fun id row hrow => ?_⟩
  unfold sampleWorld at hrow
  grind [update_apply, Delivery.IsNew, sampleRow]

/-- A second claim takes the row over and sends it; the first one finishes too late. -/
theorem sample_claimed : ∃ w : World ℕ ℕ, ∃ row, Run 3 sampleWorld w ∧ w.rows 7 = some row ∧
    (∀ w', Run 3 w w' → ∀ row', w'.rows 7 = some row' → row'.status = .sent) ∧
    ∀ w', Run 3 w w' → ∀ now result, w'.finish 3 now ⟨7, 1, 1⟩ result = w' := by
  have hclaimed : Run 3 sampleWorld _ := Run.refl.step (.claim 7 sampleRow 2 none true 1 rfl rfl not_mem_nil)
  have htaken := hclaimed.step (.claim 7 (sampleRow.claim 2 1) 302 none true 2 rfl rfl (by decide))
  have hlate := htaken.step (.finish ⟨7, 1, 1⟩ (.refused "TIMEOUT") 303 (.head _))
  have hsent := hlate.step (.finish ⟨7, 2, 2⟩ .accepted 304 (.tail _ (.head _)))
  obtain ⟨hrows, hlost⟩ := deliveries_end (by decide) sampleWorld_start hsent
  obtain ⟨-, -, -, hended⟩ := hrows 7 _ rfl
  refine ⟨_, _, hsent, rfl, hended (.inl rfl), hlost ⟨7, 1, 1⟩ (.head _) ?_⟩
  rintro ⟨row, hrow, hstatus, -⟩
  cases hrow
  cases hstatus

end Bidding.Auth.Outbox
