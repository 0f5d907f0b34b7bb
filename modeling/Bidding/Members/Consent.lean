import Bidding.Members.Commits

/-!
# Nobody joins without consent or room

Accounts stay as they are, so what was checked of an invitation and its inviter holds when the acceptance commits, and the
members are counted under the lock of the subscription.
-/

namespace Bidding.Members

open Foundations Discipline List

variable {ι υ ω : Type} [DecidableEq ι] [DecidableEq υ] [DecidableEq ω]

/-- The commands on invitations, members and packages. -/
inductive Consents (p : Platform υ ω) : ℕ → Command υ ω → Prop where
  | removeUserFromOrg (now : ℕ) (r : Removal υ ω) : Consents p now (removeUserFromOrg p r)
  | addUserToOrg (now : ℕ) (a : Addition υ ω) : Consents p now (addUserToOrg p a)
  | createInvitation (now : ℕ) (r : InvitationRequest υ ω) : Consents p now (createInvitation p r)
  | revokeInvitation (now : ℕ) (r : Revocation υ ω) : Consents p now (revokeInvitation r)
  | respondInvitation (now : ℕ) (r : Response υ) : Consents p now (respondInvitation p r)
  | updateOrganizationSubscription (now : ℕ) (r : SubscriptionUpdate υ ω) : Consents p now (updateOrganizationSubscription r)
  | updateSystemPackage (now : ℕ) (r : PackageUpdate υ) : Consents p now (updateSystemPackage r)

theorem consents_starts {p : Platform υ ω} {terms : Terms ι υ ω} (hterms : terms.Lawful p) :
    (discipline p terms).Starts (Consents p) := by
  intro now script hscript
  cases hscript with
  | removeUserFromOrg r => exact valid_removeUserFromOrg hterms r
  | addUserToOrg a => exact valid_addUserToOrg a
  | createInvitation r => exact valid_createInvitation r
  | revokeInvitation r => exact valid_revokeInvitation r
  | respondInvitation r => exact valid_respondInvitation hterms r
  | updateOrganizationSubscription r => exact valid_updateOrganizationSubscription r
  | updateSystemPackage r => exact valid_updateSystemPackage r

def MayInvite (c : Rows υ ω) (o : ω) (u : υ) : Prop := c.IsAdmin u ∨ c.IsManager u o ∧ c.IsActiveAccount u

/-- Accounts stay as they are; the times of the statements of a process are `timed`. -/
def consentTerms (timed : ι → ℕ → Prop) : Terms ι υ ω where
  rely s s' _ := ∀ u, Rows.account s'.tables.committed u = Rows.account s.tables.committed u
  meets s i _ := timed i s.clock
  counted _ _ _ _ := True
  vouched o u s i := s.tables.locked (.organization o) = some i ∧ MayInvite s.tables.committed o u
  covered _ _ _ := True
  timed := timed
  accounts := False

section Commits

variable {p : Platform υ ω} {terms : Terms ι υ ω} {s : World ι υ ω} {i : ι} {e : Event υ ω} {c c' : Rows υ ω}

omit [DecidableEq ω] in
theorem account_commit (haccounts : ¬ terms.accounts) (hdone : Done p terms s i e) (u : υ) :
    Rows.account (s.tables.commit i).committed u = Rows.account s.tables.committed u := by
  cases accountChange_of_done hdone u with
  | kept h => exact h
  | role _ _ haccounts' => exact absurd haccounts' haccounts
  | deactivated _ _ haccounts' => exact absurd haccounts' haccounts

omit [DecidableEq ω] in
theorem joins_of_done {u : υ} {o : ω} (hdone : Done p terms s i e) (hbefore : ¬ Rows.IsActiveMember s.tables.committed u o)
    (hafter : Rows.IsActiveMember (s.tables.commit i).committed u o) :
    (∃ actor, e = .added actor u o) ∨ ∃ id, e = .accepted id u o true := by
  obtain ⟨m', hrow', hactive⟩ := hafter
  cases memberChange_of_done hdone u o with
  | kept h => exact absurd ⟨m', h.symm.trans hrow', hactive⟩ hbefore
  | left m _ h =>
    rw [h] at hrow'
    cases hrow'
    cases hactive
  | role m _ hm h =>
    rw [h] at hrow'
    cases hrow'
    exact absurd ⟨m, hm, hactive⟩ hbefore
  | joined _ _ hevent => exact hevent

def StaysClosed (c c' : Rows υ ω) : Prop :=
  ∀ id invitation, c.invitation id = some invitation → invitation.status ≠ .pending →
    ∃ invitation', c'.invitation id = some invitation' ∧ invitation'.status = invitation.status

omit [DecidableEq υ] [DecidableEq ω] in
theorem StaysClosed.refl (c : Rows υ ω) : StaysClosed c c := fun _ invitation h _ => ⟨invitation, h, rfl⟩

omit [DecidableEq υ] [DecidableEq ω] in
theorem StaysClosed.trans {c c' c'' : Rows υ ω} (h : StaysClosed c c') (h' : StaysClosed c' c'') : StaysClosed c c'' := by
  intro id invitation hrow hclosed
  obtain ⟨invitation', hrow', hstatus⟩ := h id invitation hrow hclosed
  obtain ⟨invitation'', hrow'', hstatus'⟩ := h' id invitation' hrow' (by rwa [hstatus])
  exact ⟨invitation'', hrow'', hstatus'.trans hstatus⟩

omit [DecidableEq ω] in
/-- A commit that is about an invitation finds it pending, or leaves its status as it is. -/
theorem staysClosed_commit (hdone : Done p terms s i e) : StaysClosed s.tables.committed (s.tables.commit i).committed := by
  intro id invitation hrow hclosed
  by_cases hwrites : e.Writes (.invitation id)
  · cases e with
    | accepted id' v o activated =>
      obtain rfl : id = id' := by simpa [Event.Writes] using hwrites
      obtain ⟨invitation', now, -, -, hconsent, -⟩ := hdone
      obtain rfl := Option.some.inj (hrow.symm.trans hconsent.row)
      exact absurd hconsent.pending hclosed
    | closed id' status =>
      obtain rfl : id = id' := by simpa [Event.Writes] using hwrites
      obtain ⟨invitation', now, user, hrow', hpending, -⟩ := hdone
      obtain rfl := Option.some.inj (hrow.symm.trans hrow')
      exact absurd hpending hclosed
    | renewed id' =>
      cases hwrites
      obtain ⟨invitation', renewed, hrow', -, -, hstatus, hwrote⟩ := hdone
      obtain rfl := Option.some.inj (hrow.symm.trans hrow')
      exact ⟨renewed, hwrote.sees.1 _ mem_cons_self, hstatus⟩
    | invited id' =>
      obtain rfl : id = id' := by simpa [Event.Writes] using hwrites
      obtain ⟨invitation', hnone, -⟩ := hdone
      cases hrow.symm.trans hnone
    | _ => simp [Event.Writes] at hwrites
  · exact ⟨invitation, (kept_of_done hdone hwrites).trans hrow, rfl⟩

omit [DecidableEq ω] in
theorem memberCount_le {u : υ} {o : ω} (h : ∀ v, v ≠ u → c'.member v o = c.member v o) :
    memberCount p c' o ≤ memberCount p c o + 1 := by
  unfold memberCount
  have hsubset : (p.accounts.filter fun v => c'.IsActiveMember v o) ⊆
      insert u (p.accounts.filter fun v => c.IsActiveMember v o) := by
    intro v hv
    by_cases hvu : v = u
    · rw [hvu]
      exact Finset.mem_insert_self _ _
    · rw [Finset.mem_filter, isActiveMember_congr (h v hvu)] at hv
      exact Finset.mem_insert_of_mem (Finset.mem_filter.mpr hv)
  exact (Finset.card_le_card hsubset).trans (Finset.card_insert_le _ _)

end Commits

section Runs

variable {p : Platform υ ω} {o : ω} {u : υ} {timed : ι → ℕ → Prop}

omit [DecidableEq υ] [DecidableEq ω] in
theorem mayInvite_congr {c c' : Rows υ ω} (haccount : c.account u = c'.account u)
    (hmember : c.member u o = c'.member u o) : MayInvite c o u ↔ MayInvite c' o u :=
  or_congr (isAdmin_congr haccount) (and_congr (isManager_congr hmember) (isActiveAccount_congr haccount))

theorem lasting_vouched (o : ω) (u : υ) : (discipline p (consentTerms timed)).Lasting ((consentTerms timed).vouched o u) where
  stable := by
    intro s s' i hvouched hsteady
    have hmember : Rows.member s'.tables.committed u o = Rows.member s.tables.committed u o :=
      hsteady.guarded (.member u o) hvouched.1
    exact ⟨hsteady.locked _ hvouched.1, (mayInvite_congr (hsteady.rely u) hmember).mpr hvouched.2⟩
  own := by
    intro s i request hready hvouched
    refine ⟨Tables.locked_exec hready hvouched.1, ?_⟩
    rw [show (s.tables.exec i request).committed = s.tables.committed from Tables.committed_exec request]
    exact hvouched.2

theorem consentTerms_lawful : (consentTerms timed).Lawful p where
  counted := fun _ _ => Lasting.trivial
  count := fun _ _ _ => trivial
  vouched := lasting_vouched
  vouch := fun hlocked hmanager => ⟨hlocked, inviter_of_inviterStillManager hmanager⟩
  cover := fun _ => trivial
  time := fun htimed => htimed

theorem consent_lawful : (discipline p (consentTerms timed)).Lawful where
  relyQuiet := fun h u => by rw [h]
  settled := fun _ _ hindexed hdone => indexed_commit hindexed hdone
  rely := fun _ _ _ hdone _ => account_commit id hdone

variable {start s s' : World ι υ ω} {task task' : ι → Option (Command υ ω)}

theorem consent_within (hs : (discipline p (consentTerms timed)).Sound s task)
    (h : (Script.program (Consents p)).Within (fun _ _ _ => True) s task s' task')
    (htimed : ∀ i now, s.clock ≤ now → timed i now) :
    (discipline p (consentTerms timed)).Sound s' task' ∧ StaysClosed s.tables.committed s'.tables.committed :=
  Sound.within consent_lawful (consents_starts consentTerms_lawful) StaysClosed.refl (fun _ _ _ => StaysClosed.trans)
    (fun _ _ _ hdone => staysClosed_commit hdone) hs (h.mono fun _ i _ hclock _ _ _ => htimed i _ hclock)

theorem consent_sound (h : (Script.program (Consents p)).Reached start s task)
    (hwritten : ∀ i k, start.tables.written i k = none) (hindexed : Indexed start.tables.committed) :
    (discipline p (consentTerms fun _ _ => True)).Sound s task :=
  (consent_within (.initial hindexed hwritten) h.within fun _ _ _ => trivial).1

/-- The time is one of the transaction that `i` has open: whenever `i` was idle before, it was no later. -/
def During (p : Platform υ ω) (start s : World ι υ ω) (task : ι → Option (Command υ ω)) (i : ι) (now : ℕ) : Prop :=
  now ≤ s.clock ∧ ∀ s₀ task₀, (Script.program (Consents p)).Reached start s₀ task₀ → task₀ i = none →
    (Script.program (Consents p)).Within (fun _ _ _ => True) s₀ task₀ s task → s₀.clock ≤ now

/-- The process accepts an invitation that is pending, of the address of the account, and not yet expired when the
process answers it, from an inviter who may invite. -/
def ByInvitation (p : Platform υ ω) (start s : World ι υ ω) (task : ι → Option (Command υ ω)) (c' : Rows υ ω) (u : υ)
    (o : ω) : Prop :=
  ∃ i id invitation now, task i = some (.commit (.accepted id u o true)) ∧ During p start s task i now ∧
    invitation.organization = o ∧ Consent s.tables.committed id u invitation now ∧
    MayInvite s.tables.committed o invitation.invitedBy ∧ c'.invitation id = some { invitation with
      status := .accepted, respondedAt := some now, acceptedUserId := some u }

def ByAdministrator (s : World ι υ ω) (task : ι → Option (Command υ ω)) (u : υ) (o : ω) : Prop :=
  ∃ i actor, task i = some (.commit (.added actor u o)) ∧ Rows.IsAdmin s.tables.committed actor

def WithinQuota (p : Platform υ ω) (c : Rows υ ω) (o : ω) : Prop :=
  ∃ sub, c.subscription o = some sub ∧ memberCount p c o ≤ sub.memberQuota

omit [DecidableEq υ] [DecidableEq ω] in
theorem pending_unique {c : Rows υ ω} (h : Indexed c) {id id' : String} {invitation invitation' : Invitation υ ω}
    (hrow : c.invitation id = some invitation) (hrow' : c.invitation id' = some invitation')
    (hpending : invitation.status = .pending) (hpending' : invitation'.status = .pending)
    (horganization : invitation.organization = invitation'.organization)
    (haddress : invitation.emailNorm = invitation'.emailNorm) : id = id' := by
  have hentry := (h _ _ id).mpr ⟨invitation, hrow, hpending, horganization, haddress⟩
  have hentry' := (h _ _ id').mpr ⟨invitation', hrow', hpending', rfl, rfl⟩
  exact Option.mem_unique hentry hentry'

theorem exists_commit (hs : (discipline p (consentTerms timed)).Sound s task) (htimed : ∀ i, timed i s.clock)
    (hstep : (Script.program (Consents p)).Step s task s' task')
    (hbefore : ¬ Rows.IsActiveMember s.tables.committed u o) (hafter : Rows.IsActiveMember s'.tables.committed u o) :
    ∃ i e, task i = some (.commit e) ∧ Done p (consentTerms timed) s i e ∧
      s'.tables.committed = (s.tables.commit i).committed ∧ s'.clock = s.clock := by
  cases hstep with
  | advance seconds => exact absurd hafter hbefore
  | start i t hidle hstarts => exact absurd hafter hbefore
  | statement i request t hnext hready =>
    rw [show (s.tables.exec i request).committed = s.tables.committed from Tables.committed_exec request] at hafter
    exact absurd hafter hbefore
  | commit i e hfinish =>
    have htask := commit_of_finish hfinish
    exact ⟨i, e, htask, hs.post htask (htimed i), rfl, rfl⟩
  | abort i => exact absurd hafter hbefore

omit [DecidableEq ω] in
theorem withinQuota_of_room {c c' : Rows υ ω} (htrial : p.trialFullAccess = false)
    (hroom : Room p c o) (hsubscription : c'.subscription o = c.subscription o)
    (hothers : ∀ v, v ≠ u → c'.member v o = c.member v o) : WithinQuota p c' o := by
  obtain htrue | ⟨sub, hsub, hfewer⟩ := hroom
  · rw [htrial] at htrue
    cases htrue
  · exact ⟨sub, hsubscription.trans hsub, (memberCount_le hothers).trans hfewer⟩

omit [DecidableEq ω] in
theorem withinQuota_of_done {i : ι} {e : Event υ ω} (htrial : p.trialFullAccess = false)
    (hdone : Done p (consentTerms timed) s i e) (hbefore : ¬ Rows.IsActiveMember s.tables.committed u o)
    (hafter : Rows.IsActiveMember (s.tables.commit i).committed u o) : WithinQuota p (s.tables.commit i).committed o := by
  obtain ⟨actor, rfl⟩ | ⟨id, rfl⟩ := joins_of_done hdone hbefore hafter
  · obtain ⟨-, -, hroom, hwrote⟩ := hdone
    apply withinQuota_of_room htrial hroom
    · exact hwrote.sees.2 _ (by simp [activeEmployee])
    · intro v hv
      exact hwrote.sees.2 _ (by simpa [activeEmployee] using hv)
  · obtain ⟨invitation, now, -, -, -, -, hjoins, hwrote⟩ := hdone
    apply withinQuota_of_room htrial (hjoins rfl).2
    · exact hwrote.sees.2 _ (by simp [closedRows, joinedRows, activeEmployee])
    · intro v hv
      exact hwrote.sees.2 _ (by simpa [closedRows, joinedRows, activeEmployee] using hv)

omit [DecidableEq ι] [DecidableEq ω] in
/-- Of the processes but one, it makes no difference how that one is timed. -/
theorem sameOn_timed (i : ι) (bound : ℕ) : SameOn (discipline p (consentTerms (υ := υ) (ω := ω) fun _ _ => True))
    (discipline p (consentTerms fun j now => j = i → bound ≤ now)) (· ≠ i) where
  guard := rfl
  settled := rfl
  rely := id
  meets := fun _ _ => trivial
  post := fun {s j e} hj hdone => by
    cases e with
    | accepted id u o activated =>
      obtain ⟨invitation, now, horganization, ⟨hnow, -⟩, hrest⟩ := hdone
      exact ⟨invitation, now, horganization, ⟨hnow, fun h => absurd h hj⟩, hrest⟩
    | _ => exact hdone

/-- From a state in which a process is idle, the transaction it then runs has its times from there on. -/
theorem consent_since {s₀ : World ι υ ω} {task₀ : ι → Option (Command υ ω)} {i : ι}
    (hs : (discipline p (consentTerms fun _ _ => True)).Sound s₀ task₀) (hidle : task₀ i = none)
    (h : (Script.program (Consents p)).Within (fun _ _ _ => True) s₀ task₀ s task) :
    (discipline p (consentTerms fun j now => j = i → s₀.clock ≤ now)).Sound s task := by
  have hsame := hs.same (sameOn_timed i s₀.clock) fun j hj => by rwa [not_not.mp hj]
  exact (consent_within hsame h fun _ _ hclock _ => hclock).1

theorem consent_of_done {i : ι} {e : Event υ ω} (hwritten : ∀ i k, start.tables.written i k = none)
    (hindexed : Indexed start.tables.committed) (htask : task i = some (.commit e))
    (hdone : Done p (consentTerms fun _ _ => True) s i e) (hbefore : Rows.member s.tables.committed u o = none)
    (hafter : Rows.IsActiveMember (s.tables.commit i).committed u o) :
    ByAdministrator s task u o ∨ ByInvitation p start s task (s.tables.commit i).committed u o := by
  have hinactive : ¬ Rows.IsActiveMember s.tables.committed u o := by
    rintro ⟨m, hm, -⟩
    rw [hbefore] at hm
    cases hm
  obtain ⟨actor, rfl⟩ | ⟨id, rfl⟩ := joins_of_done hdone hinactive hafter
  · exact .inl ⟨i, actor, htask, hdone.2.1 hbefore⟩
  · obtain ⟨invitation, now, horganization, hnow, hconsent, hvouched, -, hwrote⟩ := hdone
    have hrow := hwrote.sees.1 _ (mem_append_left _ mem_cons_self)
    refine .inr ⟨i, id, invitation, now, htask, ⟨hnow.1, fun s₀ task₀ hreached hidle hrun => ?_⟩, horganization, hconsent,
      hvouched.2, hrow⟩
    have hsince := consent_since (consent_sound hreached hwritten hindexed) hidle hrun
    obtain ⟨_, now', -, ⟨-, htime⟩, -, -, -, hwrote'⟩ := hsince.post htask fun _ => hrun.clock_le
    -- the row that is written tells the time of the answer
    have hrow' := hwrote'.sees.1 _ (mem_append_left _ mem_cons_self)
    have hsame : now = now' :=
      Option.some.inj (Option.some.inj (congrArg (Option.map Invitation.respondedAt) (hrow.symm.trans hrow')))
    rw [hsame]
    exact htime rfl

/-- A commit that says that it closes an invitation finds it pending and leaves it with that status. -/
theorem closed_of_step (hs : (discipline p (consentTerms fun _ _ => True)).Sound s task)
    (hstep : (Script.program (Consents p)).Step s task s' task') {id : String} {status : InvitationStatus}
    (hevent : s'.history = .closed id status :: s.history) : status ≠ .accepted ∧
      (∃ invitation, Rows.invitation s.tables.committed id = some invitation ∧ invitation.status = .pending) ∧
      ∃ invitation, Rows.invitation s'.tables.committed id = some invitation ∧ invitation.status = status := by
  cases hstep with
  | commit i e hfinish =>
    obtain ⟨rfl, -⟩ := cons.inj hevent
    obtain ⟨invitation, now, user, hrow, hpending, -, hrefused, hwrote⟩ := hs.post (commit_of_finish hfinish) trivial
    exact ⟨hrefused, ⟨invitation, hrow, hpending⟩, _, hwrote.sees.1 _ mem_cons_self, rfl⟩
  | _ => exact absurd (congrArg length hevent) (by simp)

/-- Nobody is put into an organization without consent or room: a new member is added by an administrator of the platform
or has accepted an invitation in time, and an invitation that is answered or revoked stays so. -/
theorem joins_by_consent (htrial : p.trialFullAccess = false)
    (hwritten : ∀ i k, start.tables.written i k = none) (hindexed : Indexed start.tables.committed)
    (hreached : (Script.program (Consents p)).Reached start s task)
    (hstep : (Script.program (Consents p)).Step s task s' task') :
    (∀ id id' invitation invitation', Rows.invitation s.tables.committed id = some invitation →
      Rows.invitation s.tables.committed id' = some invitation' → invitation.status = .pending →
      invitation'.status = .pending → invitation.organization = invitation'.organization →
      invitation.emailNorm = invitation'.emailNorm → id = id') ∧
    (∀ u o, Rows.member s.tables.committed u o = none → Rows.IsActiveMember s'.tables.committed u o →
      ByAdministrator s task u o ∨ ByInvitation p start s task s'.tables.committed u o) ∧
    (∀ u o, ¬ Rows.IsActiveMember s.tables.committed u o → Rows.IsActiveMember s'.tables.committed u o →
      WithinQuota p s'.tables.committed o) ∧
    (∀ id status, s'.history = .closed id status :: s.history → status ≠ .accepted ∧
      (∃ invitation, Rows.invitation s.tables.committed id = some invitation ∧ invitation.status = .pending) ∧
      ∃ invitation, Rows.invitation s'.tables.committed id = some invitation ∧ invitation.status = status) ∧
    (∀ s'' task'', (Script.program (Consents p)).Within (fun _ _ _ => True) s task s'' task'' →
      StaysClosed s.tables.committed s''.tables.committed) := by
  have hs := consent_sound hreached hwritten hindexed
  refine ⟨fun id id' invitation invitation' => pending_unique hs.settled, ?_, ?_, ?_, ?_⟩
  · intro u o hbefore hafter
    have hinactive : ¬ Rows.IsActiveMember s.tables.committed u o := by
      rintro ⟨m, hm, -⟩
      rw [hbefore] at hm
      cases hm
    obtain ⟨i, e, htask, hdone, hcommitted, -⟩ := exists_commit hs (fun _ => trivial) hstep hinactive hafter
    rw [hcommitted] at hafter ⊢
    exact consent_of_done hwritten hindexed htask hdone hbefore hafter
  · intro u o hbefore hafter
    obtain ⟨i, e, -, hdone, hcommitted, -⟩ := exists_commit hs (fun _ => trivial) hstep hbefore hafter
    rw [hcommitted] at hafter ⊢
    exact withinQuota_of_done htrial hdone hbefore hafter
  · intro id status
    exact closed_of_step hs hstep
  · intro s'' task'' hrun
    exact (consent_within hs hrun fun _ _ _ => trivial).2

end Runs

def invitedPlatform : Platform ℕ ℕ where
  accounts := {0, 1}
  organizations := [0]
  trialFullAccess := false
  invitationTtl := 604800

def invitedRow : Invitation ℕ ℕ := ⟨0, "invited@example.vn", 0, .pending, 0, 604800, none, none⟩

def invitedRows : Rows ℕ ℕ
  | .account u =>
    if u = 0 then some (⟨.user, true, "manager@example.vn", true⟩ : Account)
    else if u = 1 then some (⟨.user, true, "invited@example.vn", true⟩ : Account) else none
  | .member u o => if u = 0 ∧ o = 0 then some (⟨.manager, true⟩ : Member) else none
  | .organization o => if o = 0 then some (⟨true, some 0⟩ : Organization ℕ) else none
  | .subscription o => if o = 0 then some (⟨"package", .active, 0, none, 5⟩ : Subscription) else none
  | .package id => if id = "package" then some (⟨5, true⟩ : Package) else none
  | .invitation id => if id = "invitation" then some invitedRow else none
  | .pending o emailNorm => if o = 0 ∧ emailNorm = "invited@example.vn" then some "invitation" else none
  | .platformRoles => none

def invitedWorld : World Bool ℕ ℕ where
  tables := { committed := invitedRows, locked := fun _ => none, written := fun _ _ => none }
  clock := 10
  history := []

def acceptance : Response ℕ := ⟨⟨1, true, none, false⟩, "invitation", true⟩

theorem invitedRows_indexed : Indexed invitedRows := by
  intro o emailNorm id
  simp only [Rows.pending, Rows.invitation, invitedRows, invitedRow]
  constructor
  · intro h
    split at h
    · rename_i hkey
      obtain ⟨rfl, rfl⟩ := hkey
      cases h
      exact ⟨_, rfl, rfl, rfl, rfl⟩
    · cases h
  · rintro ⟨invitation, h, -, rfl, rfl⟩
    split at h
    · rename_i hid
      cases h
      rw [hid]
      rfl
    · cases h

theorem acceptance_reached : ∃ s : World Bool ℕ ℕ, (Script.program (Consents invitedPlatform)).Reached invitedWorld s
      (Function.update (fun _ => none) true (some (.commit (.accepted "invitation" 1 0 true)))) ∧
    s.tables.committed = invitedRows ∧ Rows.IsActiveMember (s.tables.commit true).committed 1 0 := by
  have honly : Only invitedWorld true := ⟨fun _ _ h => (nomatch h), fun _ _ _ => rfl⟩
  have hstart : (Script.program (Consents invitedPlatform)).Within (fun _ _ _ => True) invitedWorld (fun _ => none)
    invitedWorld fun _ => none := .refl
  have hbegun := hstart.start true (some (respondInvitation invitedPlatform acceptance)) rfl
    ⟨_, rfl, .respondInvitation _ acceptance⟩
  obtain ⟨s, hrun, -, hview, hcommitted, -⟩ := within_commit (fun _ _ _ _ _ => trivial) honly hbegun rfl
  refine ⟨s, hrun.reached, hcommitted, ⟨.employee, true⟩, ?_, rfl⟩
  exact (congrFun hview (.member 1 0)).trans rfl

theorem joins_by_acceptance : ∃ s s' : World Bool ℕ ℕ,
    Rows.member s.tables.committed 1 0 = none ∧ Rows.IsActiveMember s'.tables.committed 1 0 ∧
    ByInvitation invitedPlatform invitedWorld s
      (Function.update (fun _ => none) true (some (.commit (.accepted "invitation" 1 0 true)))) s'.tables.committed 1 0 ∧
    WithinQuota invitedPlatform s'.tables.committed 0 := by
  obtain ⟨s, hreached, hcommitted, hafter⟩ := acceptance_reached
  have hstep := Program.Step.commit (p := Script.program (Consents invitedPlatform)) (s := s) true
    (.accepted "invitation" 1 0 true) (congrArg (Script.program (Consents invitedPlatform)).finish
      (Function.update_self true (some (.commit (.accepted "invitation" 1 0 true))) fun _ => none))
  have hnone : Rows.member s.tables.committed 1 0 = none := by
    rw [hcommitted]
    rfl
  have hinactive : ¬ Rows.IsActiveMember s.tables.committed 1 0 := by
    rw [hcommitted]
    decide
  obtain ⟨-, hjoins, hquota, -⟩ := joins_by_consent rfl (fun _ _ => rfl) invitedRows_indexed hreached hstep
  refine ⟨s, _, hnone, hafter, (hjoins 1 0 hnone hafter).resolve_left ?_, hquota 1 0 hinactive hafter⟩
  rintro ⟨i, actor, htask, -⟩
  by_cases hi : i = true
  · rw [hi, Function.update_self] at htask
    cases htask
  · rw [Function.update_of_ne hi] at htask
    cases htask

end Bidding.Members
