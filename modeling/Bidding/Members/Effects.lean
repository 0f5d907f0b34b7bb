import Bidding.Members.Commands

/-!
# What the commands have done when they commit

Memberships are written by whoever holds their organization, and accounts by whoever holds the platform roles. `Done` says
for each event which rows are written and what is known of them, by the condition of the runs (`Terms`).
-/

namespace Bidding.Members

open Foundations Discipline List Option

variable {ι υ ω : Type} [DecidableEq ι] [DecidableEq υ] [DecidableEq ω]

abbrev World (ι υ ω : Type) := Shared ι (Row (υ := υ) (ω := ω)) (Event υ ω)

def guard : Key υ ω → Key υ ω
  | .account _ => .platformRoles
  | .member _ o => .organization o
  | k => k

def Indexed (c : Rows υ ω) : Prop :=
  ∀ o emailNorm id, c.pending o emailNorm = some id ↔ ∃ invitation, c.invitation id = some invitation ∧
    invitation.status = .pending ∧ invitation.organization = o ∧ invitation.emailNorm = emailNorm

def Room (p : Platform υ ω) (c : Rows υ ω) (o : ω) : Prop :=
  p.trialFullAccess = true ∨ ∃ sub, c.subscription o = some sub ∧ memberCount p c o < sub.memberQuota

/-- The invitation, as it is when it is answered, lets the account in. -/
structure Consent (c : Rows υ ω) (id : String) (u : υ) (invitation : Invitation υ ω) (now : ℕ) : Prop where
  row : c.invitation id = some invitation
  pending : invitation.status = .pending
  unexpired : now < invitation.expiresAt
  address : ∃ account, c.account u = some account ∧ account.active = true ∧ account.daXacMinh = true ∧
    account.emailNorm = invitation.emailNorm

def activeEmployee (u : υ) (o : ω) : Σ k : Key υ ω, Option (Row k) :=
  ⟨.member u o, some (⟨.employee, true⟩ : Member)⟩

def joinedRows (u : υ) (o : ω) (activated : Bool) : List (Σ k : Key υ ω, Option (Row k)) :=
  if activated then [activeEmployee u o] else []

def closedRows (id : String) (invitation : Invitation υ ω) (status : InvitationStatus) (now : ℕ)
    (user : Option υ) : List (Σ k : Key υ ω, Option (Row k)) :=
  [⟨.invitation id, some ({ invitation with
      status := status, respondedAt := some now, acceptedUserId := user } : Invitation υ ω)⟩,
    ⟨.pending invitation.organization invitation.emailNorm, none⟩]

/-- The condition of the runs, and what follows from it: from the count of the managers before one is taken
away, from the check of the inviter, for the organizations of an account that is deactivated, and for the time of a
statement. -/
structure Terms (ι υ ω : Type) where
  rely : World ι υ ω → World ι υ ω → ι → Prop
  meets : World ι υ ω → ι → Command υ ω → Prop
  counted : ω → υ → World ι υ ω → ι → Prop
  vouched : ω → υ → World ι υ ω → ι → Prop
  covered : υ → List ω → World ι υ ω → Prop
  timed : ι → ℕ → Prop
  /-- accounts change -/
  accounts : Prop

variable (p : Platform υ ω) (terms : Terms ι υ ω)

/-- What a command has done when it commits. -/
def Done (s : World ι υ ω) (i : ι) : Event υ ω → Prop
  | .unchanged => Wrote s i []
  | .removed u o => ∃ m, Rows.member s.tables.committed u o = some m ∧
      (m.vaiTro = .manager → terms.counted o u s i) ∧
      Wrote s i [⟨.member u o, some ({ m with active := false } : Member)⟩]
  | .profileUpdated u o => ∃ m, Rows.member s.tables.committed u o = some m ∧
      Wrote s i [⟨.member u o, some m⟩]
  | .added actor u o => ¬ Rows.IsActiveMember s.tables.committed u o ∧
      (Rows.member s.tables.committed u o = none → Rows.IsAdmin s.tables.committed actor) ∧
      Room p s.tables.committed o ∧ Wrote s i [activeEmployee u o]
  | .accepted id u o activated => ∃ invitation now, invitation.organization = o ∧ (now ≤ s.clock ∧ terms.timed i now) ∧
      Consent s.tables.committed id u invitation now ∧ terms.vouched o invitation.invitedBy s i ∧
      (activated = true → ¬ Rows.IsActiveMember s.tables.committed u o ∧ Room p s.tables.committed o) ∧
      Wrote s i (closedRows id invitation .accepted now (some u) ++ joinedRows u o activated)
  | .closed id status => ∃ invitation now user, Rows.invitation s.tables.committed id = some invitation ∧
      invitation.status = .pending ∧ status ≠ .pending ∧ status ≠ .accepted ∧
      Wrote s i (closedRows id invitation status now user)
  | .renewed id => ∃ invitation invitation', Rows.invitation s.tables.committed id = some invitation ∧
      invitation'.organization = invitation.organization ∧ invitation'.emailNorm = invitation.emailNorm ∧
      invitation'.status = invitation.status ∧ Wrote s i [⟨.invitation id, some invitation'⟩]
  | .invited id => ∃ invitation : Invitation υ ω, Rows.invitation s.tables.committed id = none ∧
      Rows.pending s.tables.committed invitation.organization invitation.emailNorm = none ∧
      invitation.status = .pending ∧ Wrote s i [⟨.invitation id, some invitation⟩,
        ⟨.pending invitation.organization invitation.emailNorm, some id⟩]
  | .platformRole u role => terms.accounts ∧ ∃ account, Rows.account s.tables.committed u = some account ∧
      (Rows.IsAdmin s.tables.committed u → role ≠ .superAdmin → ∃ v, v ≠ u ∧ Rows.IsAdmin s.tables.committed v) ∧
      Wrote s i [⟨.account u, some ({ account with vaiTro := role } : Account)⟩]
  | .organizationRole u o role => ∃ m, Rows.member s.tables.committed u o = some m ∧
      (m.vaiTro = .manager → role ≠ .manager → terms.counted o u s i) ∧
      Wrote s i [⟨.member u o, some ({ m with vaiTro := role } : Member)⟩]
  | .settings u role o organizationRole => terms.accounts ∧ ∃ account m subscriptionRows,
      Rows.account s.tables.committed u = some account ∧ Rows.member s.tables.committed u o = some m ∧
      (Rows.IsAdmin s.tables.committed u → role ≠ .superAdmin → ∃ v, v ≠ u ∧ Rows.IsAdmin s.tables.committed v) ∧
      (m.vaiTro = .manager → organizationRole ≠ .manager → terms.counted o u s i) ∧
      (∀ row ∈ subscriptionRows, row.1 = .subscription o) ∧
      Wrote s i (subscriptionRows ++ [⟨.member u o, some ({ m with vaiTro := organizationRole } : Member)⟩,
        ⟨.account u, some ({ account with vaiTro := role } : Account)⟩])
  | .deactivated u organizations => terms.accounts ∧ ∃ account, Rows.account s.tables.committed u = some account ∧
      (Rows.IsAdmin s.tables.committed u → ∃ v, v ≠ u ∧ Rows.IsAdmin s.tables.committed v) ∧
      (∀ o ∈ organizations, Rows.IsManager s.tables.committed u o → hasOtherManager p s.tables.committed u o) ∧
      (∀ o ∈ organizations, s.tables.locked (.organization o) = some i) ∧ terms.covered u organizations s ∧
      Wrote s i [⟨.account u, some ({ account with active := false } : Account)⟩]
  | .subscription o => ∃ rows, (∀ row ∈ rows, row.1 = .organization o ∨ row.1 = .subscription o) ∧
      Wrote s i rows
  | .package id => ∃ row, Wrote s i [⟨.package id, some row⟩]

def discipline : Discipline ι (Row (υ := υ) (ω := ω)) (Name υ ω) (Event υ ω) where
  guard := guard
  Settled := Indexed
  Rely := terms.rely
  Meets := terms.meets
  Post := Done p terms

/-- A command is right wherever the rows it knows are those of `c₀` and `R` holds. -/
abbrev ValidFrom (held : List (Key υ ω)) (rows : List (Σ k : Key υ ω, Option (Row k))) (c₀ : Rows υ ω)
    (R : World ι υ ω → ι → Prop) (next : Command υ ω) : Prop :=
  (discipline p terms).Valid next fun s i => (discipline p terms).Knows held rows c₀ s i ∧ R s i

abbrev ValidAtStart (next : Command υ ω) : Prop :=
  (discipline p terms).Valid next fun s i => ∀ k, s.tables.written i k = none

abbrev Agrees (held : List (Key υ ω)) (c c₀ : Rows υ ω) : Prop :=
  ∀ k, (discipline p terms).Covers held k → c k = c₀ k

variable {p terms} in
theorem lasts : (discipline p terms).Lasting fun _ _ => True := Lasting.trivial

/-- What the terms are to yield. -/
structure Terms.Lawful : Prop where
  counted : ∀ o u, (discipline p terms).Lasting (terms.counted o u)
  count : ∀ {s : World ι υ ω} {i o u next}, terms.meets s i (.statement (some (.managerCount u o)) (fun _ _ => .read) next) →
    s.tables.locked (.organization o) = some i → 1 < managerCount p (s.tables.view i) o → terms.counted o u s i
  vouched : ∀ o u, (discipline p terms).Lasting (terms.vouched o u)
  vouch : ∀ {s : World ι υ ω} {i o u}, s.tables.locked (.organization o) = some i →
    inviterStillManager s.tables.committed o u = true → terms.vouched o u s i
  cover : ∀ {s : World ι υ ω} {i u organizations}, terms.meets s i (.commit (.deactivated u organizations)) →
    terms.covered u organizations s
  time : ∀ {s : World ι υ ω} {i script}, terms.meets s i script → terms.timed i s.clock

section Statements

variable {p} {terms} {held : List (Key υ ω)} {rows : List (Σ k : Key υ ω, Option (Row k))} {c₀ : Rows υ ω}
  {R : World ι υ ω → ι → Prop} {o : ω} {session : Session υ} {next : Command υ ω}

omit [DecidableEq ι] [DecidableEq ω] in
theorem covers_of_mem {k : Key υ ω} (h : k ∈ held) : (discipline p terms).Covers held k := .inl h

omit [DecidableEq ι] [DecidableEq ω] in
theorem covers_member (h : .organization o ∈ held) (u : υ) : (discipline p terms).Covers held (.member u o) := .inr h

omit [DecidableEq ι] [DecidableEq ω] in
theorem covers_account (h : .platformRoles ∈ held) (u : υ) : (discipline p terms).Covers held (.account u) := .inr h

theorem valid_verifySession (hR : (discipline p terms).Lasting R) {superAdmin : Bool}
    {next : Account → Command υ ω}
    (h : ∀ c account, Agrees p terms held c c₀ → Rows.account c session.user = some account → account.active = true →
      ValidFrom p terms (.account session.user :: held) [] c R (next account)) :
    ValidFrom p terms held [] c₀ R (verifySession session superAdmin next) := by
  refine valid_select hR fun c view now _ hagrees hsees => ?_
  obtain rfl := hsees.eq
  split
  · exact True.intro
  rename_i account haccount
  refine valid_unless fun hrefused => valid_unless fun _ => ?_
  rw [not_or, not_not] at hrefused
  exact h view account hagrees haccount hrefused.1

theorem valid_activeOrg (hR : (discipline p terms).Lasting R) (h : ∀ c, ValidFrom p terms held [] c R next) :
    ValidFrom p terms held [] c₀ R (activeOrg session o next) := by
  refine valid_query hR fun _ _ _ _ _ _ => valid_unless fun _ => ?_
  exact valid_query hR fun c _ _ _ _ _ => valid_unless fun _ => h c

theorem valid_lockAndCanManage (hR : (discipline p terms).Lasting R)
    (h : ∀ c held', (∀ k ∈ held, k ∈ held') → .organization o ∈ held' → .account session.user ∈ held' →
      Rows.IsActiveAccount c session.user → ValidFrom p terms held' [] c R next) :
    ValidFrom p terms held [] c₀ R (lockAndCanManage session o next) := by
  unfold lockAndCanManage
  refine valid_unless fun _ => valid_select hR fun c view now _ _ hsees => ?_
  obtain rfl := hsees.eq
  refine valid_unless fun _ => valid_select hR fun c view' now _ _ hsees => ?_
  obtain rfl := hsees.eq
  split
  · exact True.intro
  rename_i account haccount
  refine valid_unless fun hinactive => ?_
  rw [not_not] at hinactive
  split
  · exact h view' _ (by simp +contextual) (by simp) (by simp) ⟨account, haccount, hinactive⟩
  refine valid_select hR fun c view'' now _ hagrees hsees => ?_
  obtain rfl := hsees.eq
  split
  · refine h view'' _ (by simp +contextual) (by simp) (by simp) ⟨account, ?_, hinactive⟩
    exact (hagrees _ (covers_of_mem (by simp))).trans haccount
  · exact True.intro

theorem lasting_counted (hterms : terms.Lawful p) (o : ω) (u : υ) :
    (discipline p terms).Lasting fun s i => True ∧ terms.counted o u s i :=
  Lasting.trivial.and (hterms.counted o u)

theorem valid_countManagers (hterms : terms.Lawful p) {target : υ}
    (ho : .organization o ∈ held) (h : ∀ c, Agrees p terms held c c₀ → (discipline p terms).Valid next fun s i =>
        (discipline p terms).Knows held rows c s i ∧ (True ∧ terms.counted o target s i)) :
    (discipline p terms).Valid (countManagers p target o next) fun s i =>
      (discipline p terms).Knows held rows c₀ s i ∧ True := by
  refine valid_read fun s i _ hknows hr hmeets => ?_
  split_ifs with hfew
  · exact ⟨_, Lasting.trivial, hr, True.intro⟩
  · have hcount := hterms.count hmeets (hknows.locked _ ho) (Nat.not_le.mp hfew)
    exact ⟨_, lasting_counted hterms o target, ⟨hr, hcount⟩, h _ hknows.agrees⟩

omit [DecidableEq υ] [DecidableEq ω] in
theorem exists_other_admin {c : Rows υ ω} (h : 1 < adminCount p c) (u : υ) : ∃ v, v ≠ u ∧ c.IsAdmin v := by
  obtain ⟨v, hv, hne⟩ := Finset.exists_mem_ne h u
  exact ⟨v, hne, (Finset.mem_filter.mp hv).2⟩

theorem valid_countAdmins (hR : (discipline p terms).Lasting R) (u : υ)
    (h : ∀ c, Agrees p terms held c c₀ → (∃ v, v ≠ u ∧ Rows.IsAdmin c v) → ValidFrom p terms held [] c R next) :
    ValidFrom p terms held [] c₀ R (countAdmins p next) := by
  refine valid_query hR fun c view now _ hagrees hsees => ?_
  obtain rfl := hsees.eq
  refine valid_unless fun hfew => h view hagrees (exists_other_admin (Nat.not_le.mp hfew) u)

end Statements

section Members

variable {p} {terms} {held : List (Key υ ω)} {c₀ : Rows υ ω} {R : World ι υ ω → ι → Prop} {u : υ} {reactivate : Bool}

theorem valid_leave (hR : (discipline p terms).Lasting R) (r : Removal υ ω) {m : Member}
    (ho : .organization r.organization ∈ held) (hm : c₀.member r.user r.organization = some m)
    (hcounted : ∀ s i, R s i → m.vaiTro = .manager → terms.counted r.organization r.user s i) :
    ValidFrom p terms held [] c₀ R (leave r) := by
  unfold leave
  refine valid_unless fun _ => valid_write hR fun c view _ hagrees hsees => ?_
  obtain rfl := hsees.eq
  have hrow : view (.member r.user r.organization) = some m :=
    (hagrees _ (covers_member ho r.user)).trans hm
  refine ⟨_, puts_modify hrow _, by simp, by simpa [discipline, guard] using ho, ?_⟩
  refine valid_commit fun s i _ hknows hr _ => ⟨m, ?_, hcounted s i hr, hknows.wrote⟩
  exact (hknows.agrees _ (covers_of_mem (by simp))).trans hrow

theorem valid_removeUserFromOrg (hterms : terms.Lawful p) (r : Removal υ ω) : ValidAtStart p terms (removeUserFromOrg p r) := by
  refine valid_begin fun c₀ => ?_
  unfold removeUserFromOrg
  refine valid_unless fun _ => valid_activeOrg lasts fun _ => ?_
  refine valid_query lasts fun c view now _ _ _ => valid_unless fun _ => ?_
  refine valid_lockAndCanManage lasts fun c held _ ho _ _ => ?_
  refine valid_query lasts fun c view now _ _ hsees => ?_
  obtain rfl := hsees.eq
  split
  · exact True.intro
  rename_i member hmember
  refine valid_unless fun _ => ?_
  split
  · refine valid_countManagers hterms ho fun c hagrees => ?_
    have hrow : Rows.member c r.user r.organization = some member :=
      (hagrees _ (covers_member ho r.user)).trans hmember
    exact valid_leave (lasting_counted hterms _ _) r ho hrow fun s i h _ => h.2
  · rename_i hmanager
    exact valid_leave lasts r ho hmember fun s i _ h => absurd h hmanager

omit [DecidableEq υ] [DecidableEq ω] in
theorem isActiveMember_congr {c c' : Rows υ ω} {o : ω} (h : c.member u o = c'.member u o) :
    c.IsActiveMember u o ↔ c'.IsActiveMember u o := by
  rw [Rows.IsActiveMember, Rows.IsActiveMember, h]

omit [DecidableEq υ] [DecidableEq ω] in
theorem memberCount_congr {c c' : Rows υ ω} {o : ω} (h : ∀ u, c.member u o = c'.member u o) :
    memberCount p c o = memberCount p c' o := by
  unfold memberCount
  exact congrArg Finset.card (Finset.filter_congr fun u _ => isActiveMember_congr (h u))

def HoldsRoom (p : Platform υ ω) (held : List (Key υ ω)) (c : Rows υ ω) (o : ω) : Prop :=
  .organization o ∈ held ∧ (p.trialFullAccess = true ∨ .subscription o ∈ held ∧
    ∃ sub, c.subscription o = some sub ∧ memberCount p c o < sub.memberQuota)

omit [DecidableEq ι] [DecidableEq ω] in
theorem HoldsRoom.room {c c' : Rows υ ω} {o : ω} (h : HoldsRoom p held c o)
    (hagrees : Agrees p terms held c' c) : Room p c' o := by
  obtain ⟨ho, htrial | ⟨hsub, sub, hrow, hroom⟩⟩ := h
  · exact .inl htrial
  · refine .inr ⟨sub, (hagrees _ (covers_of_mem hsub)).trans hrow, ?_⟩
    rwa [memberCount_congr fun u => hagrees _ (covers_member ho u)]

theorem valid_putMembership (hR : (discipline p terms).Lasting R) {o : ω}
    {next : Command υ ω} (ho : .organization o ∈ held)
    (hreactivate : reactivate = (c₀.member u o).isSome)
    (h : ∀ c, Agrees p terms held c c₀ → ValidFrom p terms (.member u o :: held) [activeEmployee u o] c R next) :
    ValidFrom p terms held [] c₀ R (putMembership o u reactivate next) := by
  have hguard : ∀ row ∈ [activeEmployee u o], (discipline p terms).guard row.1 = row.1 ∨
      (discipline p terms).guard row.1 ∈ held := by
    intro row hrow
    rw [mem_singleton.mp hrow]
    exact .inr ho
  unfold putMembership
  split
  · rename_i hback
    refine valid_write hR fun c view _ hagrees hsees => ?_
    obtain rfl := hsees.eq
    rw [hreactivate] at hback
    obtain ⟨m, hm⟩ := isSome_iff_exists.mp hback
    have hrow : view (.member u o) = some m := (hagrees _ (covers_member ho u)).trans hm
    exact ⟨_, puts_modify hrow _, by simp, hguard, h view hagrees⟩
  · refine valid_write hR fun c view _ hagrees hsees => ?_
    obtain rfl := hsees.eq
    exact ⟨_, puts_set view _ _, by simp, hguard, h view hagrees⟩

omit [DecidableEq υ] [DecidableEq ω] in
theorem subscription_of_quotaTerms {c : Rows υ ω} {o : ω} {quota : Subscription × Organization υ × Package}
    (h : quotaTerms c o = some quota) : c.subscription o = some quota.1 := by
  obtain ⟨sub, hsub, hrest⟩ := bind_eq_some_iff.mp h
  obtain ⟨organization, _, hrest⟩ := bind_eq_some_iff.mp hrest
  obtain ⟨package, _, rfl⟩ := map_eq_some_iff.mp hrest
  exact hsub

theorem valid_activateMembership (hR : (discipline p terms).Lasting R) {o : ω}
    {next : Command υ ω} (ho : .organization o ∈ held)
    (hreactivate : reactivate = (c₀.member u o).isSome)
    (h : ∀ c held', (∀ k ∈ held, k ∈ held') → .member u o ∈ held' → HoldsRoom p held' c o →
      Agrees p terms held c c₀ → ValidFrom p terms held' [activeEmployee u o] c R next) :
    ValidFrom p terms held [] c₀ R (activateMembership p o u reactivate next) := by
  unfold activateMembership
  split
  · rename_i htrial
    refine valid_putMembership hR ho hreactivate fun c hagrees => ?_
    exact h c _ (fun k => mem_cons_of_mem _) mem_cons_self ⟨mem_cons_of_mem _ ho, .inl htrial⟩ hagrees
  · refine valid_select hR fun c (view : Rows υ ω) now _ hagrees hsees => ?_
    obtain rfl := hsees.eq
    split
    · exact True.intro
    rename_i quota hquota
    refine valid_query hR fun c (view' : Rows υ ω) now' _ hagrees' hsees => ?_
    obtain rfl := hsees.eq
    refine valid_unless fun _ => valid_unless fun hfull => ?_
    have ho' : Key.organization o ∈ Key.subscription o :: held := mem_cons_of_mem _ ho
    have hmore : ∀ k, (discipline p terms).Covers held k → (discipline p terms).Covers (.subscription o :: held) k :=
      fun k hk => hk.imp (mem_cons_of_mem _) (mem_cons_of_mem _)
    refine valid_putMembership hR ho' ?_ fun c hagrees'' => ?_
    · rw [hreactivate]
      refine congrArg Option.isSome (Eq.symm ?_)
      exact (hagrees' _ (covers_member ho' u)).trans (hagrees _ (covers_member ho u))
    · have hheld : ∀ k ∈ held, k ∈ Key.member u o :: Key.subscription o :: held :=
        fun k hk => mem_cons_of_mem _ (mem_cons_of_mem _ hk)
      refine h c _ hheld mem_cons_self ⟨hheld _ ho, .inr ⟨?_, quota.1, ?_, ?_⟩⟩ fun k hk => ?_
      · exact mem_cons_of_mem _ mem_cons_self
      · have hsub : (discipline p terms).Covers (Key.subscription o :: held) (.subscription o) :=
          covers_of_mem mem_cons_self
        exact ((hagrees'' _ hsub).trans (hagrees' _ hsub)).trans (subscription_of_quotaTerms hquota)
      · rw [memberCount_congr fun v => hagrees'' _ (covers_member ho' v)]
        exact Nat.not_le.mp hfull
      · exact ((hagrees'' k (hmore k hk)).trans (hagrees' k (hmore k hk))).trans (hagrees k hk)

theorem valid_addUserToOrg (a : Addition υ ω) : ValidAtStart p terms (addUserToOrg p a) := by
  refine valid_begin fun c₀ => ?_
  unfold addUserToOrg
  refine valid_activeOrg lasts fun _ => valid_query lasts fun c view now _ _ _ => valid_unless fun _ => ?_
  refine valid_lockAndCanManage lasts fun c₁ held _ ho hactor hactive => ?_
  refine valid_query lasts fun c₂ (view₂ : Rows υ ω) now _ hagrees₂ hsees => ?_
  obtain rfl := hsees.eq
  refine valid_query lasts fun c₃ (view₃ : Rows υ ω) now _ hagrees₃ hsees => ?_
  obtain rfl := hsees.eq
  split
  · rename_i hmember
    obtain ⟨m, hm, _⟩ := hmember
    refine valid_write lasts fun c₄ (view₄ : Rows υ ω) _ hagrees₄ hsees => ?_
    obtain rfl := hsees.eq
    have hrow : view₄ (.member a.user a.organization) = some m := (hagrees₄ _ (covers_member ho _)).trans hm
    refine ⟨_, puts_modify hrow _, by simp, by simpa [discipline, guard] using ho, ?_⟩
    refine valid_commit fun s i _ hknows _ _ => ⟨m, ?_, hknows.wrote⟩
    exact (hknows.agrees _ (covers_of_mem (by simp))).trans hrow
  · rename_i hmember
    refine valid_unless fun hadmitted => ?_
    refine valid_query lasts fun c₄ (view₄ : Rows υ ω) now _ hagrees₄ hsees => ?_
    obtain rfl := hsees.eq
    split
    · exact True.intro
    refine valid_unless fun _ => ?_
    have hsame : view₄.member a.user a.organization = view₃.member a.user a.organization :=
      hagrees₄ _ (covers_member ho _)
    refine valid_activateMembership lasts ho (by rw [hsame]) fun c₅ held' hheld hmem hroom hagrees₅ => ?_
    refine valid_commit fun s i _ hknows _ _ => ?_
    have hrow : Rows.member s.tables.committed a.user a.organization = view₃.member a.user a.organization :=
      ((hknows.agrees _ (covers_of_mem hmem)).trans (hagrees₅ _ (covers_member ho _))).trans hsame
    have haccount : Rows.account s.tables.committed a.session.user = view₂.account a.session.user :=
      (((hknows.agrees _ (covers_of_mem (hheld _ hactor))).trans (hagrees₅ _ (covers_of_mem hactor))).trans
        (hagrees₄ _ (covers_of_mem hactor))).trans (hagrees₃ _ (covers_of_mem hactor))
    refine ⟨?_, fun hnone => ?_, hroom.room hknows.agrees, hknows.wrote⟩
    · rwa [isActiveMember_congr hrow]
    · rw [hrow] at hnone
      obtain ⟨account, hrole, hactive⟩ := hactive
      rw [hnone] at hadmitted
      have hadmin : (view₂.account a.session.user).any (fun account => account.vaiTro = .superAdmin) = true := by
        by_contra hnot
        exact hadmitted ⟨by simp, hnot⟩
      have hsame₂ : view₂.account a.session.user = some account :=
        (hagrees₂ _ (covers_of_mem hactor)).trans hrole
      rw [hsame₂] at hadmin haccount
      exact ⟨account, haccount, by simpa using hadmin, hactive⟩

end Members

section Invitations

variable {p} {terms} {held : List (Key υ ω)} {rows : List (Σ k : Key υ ω, Option (Row k))} {c₀ : Rows υ ω}
  {R : World ι υ ω → ι → Prop} {invitation : Invitation υ ω} {now : ℕ} {id email : String} {role : PlatformRole}

theorem puts_close (view : Rows υ ω) (id : String) (invitation : Invitation υ ω) (status : InvitationStatus)
    (now : ℕ) (user : Option υ) : Puts (close id invitation status now user) view (closedRows id invitation status now user) :=
  (puts_set view _ _).both (puts_set view _ _) (by simp)

theorem valid_close (hR : (discipline p terms).Lasting R)
    {status : InvitationStatus} {user : Option υ} {next : Command υ ω}
    (hrows : ∀ row ∈ rows, ∃ u o, row.1 = .member u o)
    (h : ∀ c held', (∀ k ∈ held, k ∈ held') → Agrees p terms held c c₀ →
      ValidFrom p terms held' (closedRows id invitation status now user ++ rows) c R next) :
    ValidFrom p terms held rows c₀ R (.write (close id invitation status now user) next) := by
  refine valid_write hR fun c view _ hagrees _ => ⟨_, puts_close view id invitation status now user, ?_, ?_, ?_⟩
  · intro row hrow hmem
    obtain ⟨row', hrow', hkey⟩ := mem_map.mp hmem
    obtain ⟨u, o, hmember⟩ := hrows row' hrow'
    have hsame : row.1 = .member u o := hkey.symm.trans hmember
    simp only [closedRows, mem_cons, not_mem_nil, or_false] at hrow
    rcases hrow with rfl | rfl <;> cases hsame
  · intro row hrow
    simp only [closedRows, mem_cons, not_mem_nil, or_false] at hrow
    rcases hrow with rfl | rfl <;> exact .inl rfl
  · exact h c _ (fun k hk => mem_append_right _ hk) hagrees

theorem valid_createInvitation (r : InvitationRequest υ ω) : ValidAtStart p terms (createInvitation p r) := by
  refine valid_begin fun c₀ => ?_
  unfold createInvitation
  refine valid_verifySession lasts fun c₁ account _ _ _ => valid_activeOrg lasts fun _ => ?_
  refine valid_query lasts fun c₂ view₂ now _ _ _ => valid_unless fun _ => ?_
  refine valid_find lasts fun c₃ (view₃ : Rows υ ω) _ hsettled₃ _ hsees => ?_
  obtain rfl := hsees.eq
  split
  · refine valid_attempt lasts fun c₄ (view₄ : Rows υ ω) _ st _ _ hsees hst => ?_
    obtain rfl := hsees.eq
    unfold insertInvitation at hst
    split at hst
    · cases hst
    rename_i hfree
    cases hst
    rw [not_or, Bool.not_eq_true, Bool.not_eq_true, isSome_eq_false_iff, isSome_eq_false_iff,
      isNone_iff_eq_none, isNone_iff_eq_none] at hfree
    refine ⟨_, (puts_set view₄ _ _).both (puts_set view₄ _ _) (by simp), by simp, ?_, ?_⟩
    · intro row hrow
      simp only [singleton_append, mem_cons, not_mem_nil, or_false] at hrow
      rcases hrow with rfl | rfl <;> exact .inl rfl
    · refine valid_commit fun s i _ hknows _ _ => ⟨_, ?_, ?_, rfl, hknows.wrote⟩
      · exact (hknows.agrees _ (covers_of_mem (by simp))).trans hfree.1
      · exact (hknows.agrees _ (covers_of_mem (by simp))).trans hfree.2
  · rename_i id hid
    obtain ⟨invitation, hrow, -⟩ := (hsettled₃ _ _ _).mp hid
    refine valid_write lasts fun c₄ (view₄ : Rows υ ω) _ hagrees₄ hsees => ?_
    obtain rfl := hsees.eq
    have hrow₄ : view₄ (.invitation id) = some invitation :=
      (hagrees₄ _ (covers_of_mem (by simp [hid]))).trans hrow
    refine ⟨_, puts_modify hrow₄ _, by simp, by simp [discipline, guard], ?_⟩
    refine valid_commit fun s i _ hknows _ _ => ⟨invitation, _, ?_, ?_, ?_, ?_, hknows.wrote⟩
    · exact (hknows.agrees _ (covers_of_mem (by simp))).trans hrow₄
    · rfl
    · rfl
    · rfl

theorem valid_revokeInvitation (r : Revocation υ ω) : ValidAtStart p terms (revokeInvitation r) := by
  refine valid_begin fun c₀ => ?_
  unfold revokeInvitation
  refine valid_verifySession lasts fun c₁ account _ _ _ => valid_activeOrg lasts fun _ => ?_
  refine valid_query lasts fun c₂ view₂ now _ _ _ => valid_unless fun _ => ?_
  refine valid_attempt lasts fun c₃ (view₃ : Rows υ ω) now st _ _ hsees hst => ?_
  obtain rfl := hsees.eq
  obtain ⟨invitation, hrow, hst⟩ := bind_eq_some_iff.mp hst
  split at hst
  · rename_i hmatches
    cases hst
    refine ⟨_, puts_close view₃ _ _ _ _ _, by simp, ?_, ?_⟩
    · intro row hrow
      simp only [closedRows, mem_cons, not_mem_nil, or_false] at hrow
      rcases hrow with rfl | rfl <;> exact .inl rfl
    · refine valid_commit fun s i _ hknows _ _ =>
        ⟨invitation, now, invitation.acceptedUserId, ?_, hmatches.2, ?_, ?_, ?_⟩
      · exact (hknows.agrees _ (covers_of_mem (by simp [closedRows]))).trans hrow
      · exact InvitationStatus.noConfusion
      · exact InvitationStatus.noConfusion
      · exact hknows.wrote
  · cases hst

omit [DecidableEq υ] [DecidableEq ω] in
theorem inviter_of_inviterStillManager {c : Rows υ ω} {o : ω} {inviter : υ} (h : inviterStillManager c o inviter = true) :
    c.IsAdmin inviter ∨ c.IsManager inviter o ∧ c.IsActiveAccount inviter := by
  obtain ⟨account, haccount, hrights⟩ := (any_eq_true _ _).mp h
  rw [Bool.and_eq_true, Bool.or_eq_true, decide_eq_true_eq, decide_eq_true_eq] at hrights
  obtain ⟨hactive, hadmin | hmanager⟩ := hrights
  · exact .inl ⟨account, haccount, hadmin, hactive⟩
  · exact .inr ⟨hmanager, account, haccount, hactive⟩

omit [DecidableEq υ] [DecidableEq ω] in
theorem consent_of_verified {c c' : Rows υ ω} {u : υ} (hverified : verifiedEmail c u = some (email, role))
    (haccount : c'.account u = c.account u) (hrow : c'.invitation id = some invitation)
    (hpasses : ¬ (invitation.status ≠ .pending ∨ email = "" ∨ invitation.emailNorm ≠ email ∨
      invitation.expiresAt ≤ now)) : Consent c' id u invitation now := by
  rw [not_or, not_or, not_or, not_not, not_not, Nat.not_le] at hpasses
  obtain ⟨account, hold, hemail⟩ := bind_eq_some_iff.mp hverified
  split at hemail
  · rename_i hchecked
    cases hemail
    exact ⟨hrow, hpasses.1, hpasses.2.2.2, account, haccount.trans hold, hchecked.2, hchecked.1, hpasses.2.2.1.symm⟩
  · cases hemail

theorem valid_acceptInvitation (hR : (discipline p terms).Lasting R) {u : υ}
    {activated : Bool} {c' : Rows υ ω}
    (hnow : ∀ s i, R s i → now ≤ s.clock ∧ terms.timed i now)
    (hvouched : ∀ s i, R s i → terms.vouched invitation.organization invitation.invitedBy s i)
    (haccount : .account u ∈ held) (hinvitation : .invitation id ∈ held)
    (ho : .organization invitation.organization ∈ held)
    (hverified : verifiedEmail c' u = some (email, role)) (hsame : c₀.account u = c'.account u)
    (hrow : c₀.invitation id = some invitation)
    (hpasses : ¬ (invitation.status ≠ .pending ∨ email = "" ∨ invitation.emailNorm ≠ email ∨
      invitation.expiresAt ≤ now))
    (hroom : activated = true → ¬ c₀.IsActiveMember u invitation.organization ∧
      HoldsRoom p held c₀ invitation.organization) :
    ValidFrom p terms held (joinedRows u invitation.organization activated) c₀ R (acceptInvitation id invitation u now activated) := by
  have hrows : ∀ row ∈ joinedRows u invitation.organization activated, ∃ u o, row.1 = Key.member u o := by
    intro row hrow
    unfold joinedRows at hrow
    split at hrow
    · rw [mem_singleton.mp hrow]
      exact ⟨_, _, rfl⟩
    · cases hrow
  refine valid_close hR hrows fun c held' hsub hagrees => ?_
  refine valid_commit fun s i _ hknows hr _ => ?_
  have hcommitted : Agrees p terms held s.tables.committed c₀ := fun k hk =>
    (hknows.agrees k (hk.imp (hsub _) (hsub _))).trans (hagrees k hk)
  refine ⟨invitation, now, rfl, hnow s i hr, ?_, hvouched s i hr, fun hactivated => ?_, hknows.wrote⟩
  · exact consent_of_verified hverified ((hcommitted _ (covers_of_mem haccount)).trans hsame)
      ((hcommitted _ (covers_of_mem hinvitation)).trans hrow) hpasses
  · obtain ⟨hnot, hholds⟩ := hroom hactivated
    refine ⟨?_, hholds.room hcommitted⟩
    rwa [isActiveMember_congr (hcommitted _ (covers_member ho u))]

theorem valid_respondInvitation (hterms : terms.Lawful p) (r : Response υ) : ValidAtStart p terms (respondInvitation p r) := by
  refine valid_begin fun c₀ => ?_
  unfold respondInvitation
  refine valid_verifySession lasts fun c₁ account _ _ _ => ?_
  refine valid_query lasts fun c₂ (view₂ : Rows υ ω) now₂ _ _ hsees => ?_
  obtain rfl := hsees.eq
  refine valid_select_at hterms.time lasts fun c₃ (view₃ : Rows υ ω) now _ hagrees₃ hsees => ?_
  obtain rfl := hsees.eq
  have hclock := lasts.and (Lasting.time (d := discipline p terms) terms.timed now)
  split
  · rename_i invitation email platformRole hrow hverified
    refine valid_unless fun hpasses => ?_
    have hpending : invitation.status = .pending := by
      rw [not_or, not_not] at hpasses
      exact hpasses.1
    have hclosed : ∀ (c : Rows υ ω) (held : List (Key υ ω)) (R : World ι υ ω → ι → Prop) status user,
        (discipline p terms).Lasting R → .invitation r.invitation ∈ held →
        c (.invitation r.invitation) = some invitation → status ≠ .pending → status ≠ .accepted →
        ValidFrom p terms held [] c R (.write (close r.invitation invitation status now user)
          (.commit (.closed r.invitation status))) := by
      intro c held R status user hR hheld hc hnew hrefused
      refine valid_close hR (by simp) fun c' held' hsub hagrees => ?_
      refine valid_commit fun s i _ hknows _ _ => ⟨invitation, now, user, ?_, hpending, hnew, hrefused, ?_⟩
      · exact ((hknows.agrees _ (covers_of_mem (hsub _ hheld))).trans (hagrees _ (covers_of_mem hheld))).trans hc
      · simpa using hknows.wrote
    split
    · exact hclosed _ _ _ _ _ hclock (by simp) hrow InvitationStatus.noConfusion InvitationStatus.noConfusion
    refine valid_unless fun _ => ?_
    refine valid_select hclock fun c₄ (view₄ : Rows υ ω) _ _ hagrees₄ hsees => ?_
    obtain rfl := hsees.eq
    refine valid_unless fun _ => ?_
    have hagrees : view₄.account r.session.user = view₂.account r.session.user :=
      (hagrees₄ _ (covers_of_mem (by simp))).trans (hagrees₃ _ (covers_of_mem (by simp)))
    have hrow₄ : view₄.invitation r.invitation = some invitation :=
      (hagrees₄ _ (covers_of_mem (by simp))).trans hrow
    refine valid_read fun s i _ hknows hr _ => ?_
    have hsees := hknows.wrote.sees.eq
    rw [hsees]
    have hcommitted := hknows.agrees
    split
    · refine ⟨_, hclock, hr, ?_⟩
      refine hclosed _ _ _ _ _ hclock (by simp) ?_ InvitationStatus.noConfusion InvitationStatus.noConfusion
      exact (hcommitted _ (covers_of_mem (by simp))).trans hrow₄
    · rename_i hinviter
      rw [not_not] at hinviter
      have hvouched := hterms.vouch (hknows.locked _ (by simp)) hinviter
      refine ⟨_, hclock.and (hterms.vouched _ _), ⟨hr, hvouched⟩, ?_⟩
      refine valid_query (hclock.and (hterms.vouched _ _)) fun c₅ (view₅ : Rows υ ω) _ _ hagrees₅ hsees => ?_
      obtain rfl := hsees.eq
      have hsame : view₅.account r.session.user = view₂.account r.session.user :=
        ((hagrees₅ _ (covers_of_mem (by simp))).trans (hcommitted _ (covers_of_mem (by simp)))).trans hagrees
      have hrow₅ : view₅.invitation r.invitation = some invitation :=
        ((hagrees₅ _ (covers_of_mem (by simp))).trans (hcommitted _ (covers_of_mem (by simp)))).trans hrow₄
      split
      · exact valid_acceptInvitation (hclock.and (hterms.vouched _ _)) (fun s i h => h.1.2) (fun s i h => h.2)
          (by simp) (by simp) (by simp) hverified hsame hrow₅ hpasses (by simp)
      rename_i hmember
      refine valid_activateMembership (hclock.and (hterms.vouched _ _)) (by simp) rfl
        fun c₆ held' hheld _ hroom hagrees₆ => ?_
      refine valid_acceptInvitation (hclock.and (hterms.vouched _ _)) (fun s i h => h.1.2) (fun s i h => h.2)
        (hheld _ (by simp)) (hheld _ (by simp)) (hheld _ (by simp)) hverified ?_ ?_ hpasses fun _ => ⟨?_, hroom⟩
      · exact (hagrees₆ _ (covers_of_mem (by simp))).trans hsame
      · exact (hagrees₆ _ (covers_of_mem (by simp))).trans hrow₅
      · rwa [isActiveMember_congr (hagrees₆ _ (covers_member (by simp) r.session.user))]
  · exact True.intro

end Invitations

section Roles

variable {p} {terms} {held : List (Key υ ω)} {c₀ : Rows υ ω} {R : World ι υ ω → ι → Prop} {account : Account}
  {rows : List (Σ k : Key υ ω, Option (Row k))}

omit [DecidableEq υ] [DecidableEq ω] in
theorem isAdmin_congr {c c' : Rows υ ω} {u : υ} (h : c.account u = c'.account u) : c.IsAdmin u ↔ c'.IsAdmin u := by
  rw [Rows.IsAdmin, Rows.IsAdmin, h]

omit [DecidableEq ι] [DecidableEq ω] in
theorem exists_admin_congr {c c' : Rows υ ω} {u : υ} (h : .platformRoles ∈ held)
    (hagrees : Agrees p terms held c' c) (hother : ∃ v, v ≠ u ∧ c.IsAdmin v) : ∃ v, v ≠ u ∧ c'.IsAdmin v := by
  obtain ⟨v, hne, hadmin⟩ := hother
  exact ⟨v, hne, (isAdmin_congr (hagrees _ (covers_account h v))).mpr hadmin⟩

def MaySet (c : Rows υ ω) (u : υ) (role : PlatformRole) : Prop :=
  c.IsAdmin u → role ≠ .superAdmin → ∃ v, v ≠ u ∧ c.IsAdmin v

omit [DecidableEq ι] [DecidableEq ω] in
theorem maySet_congr {c c' : Rows υ ω} {u : υ} {role : PlatformRole} (h : .platformRoles ∈ held)
    (hagrees : Agrees p terms held c' c) (hset : MaySet c u role) : MaySet c' u role := by
  intro hadmin hrole
  rw [isAdmin_congr (hagrees _ (covers_account h u))] at hadmin
  exact exists_admin_congr h hagrees (hset hadmin hrole)

theorem valid_setPlatformRole (hR : (discipline p terms).Lasting R) {u : υ} {role : PlatformRole}
    {next : Command υ ω} (hroles : .platformRoles ∈ held)
    (haccount : c₀.account u = some account)
    (h : ∀ c, Agrees p terms held c c₀ →
      ValidFrom p terms (.account u :: held) [⟨.account u, some ({ account with vaiTro := role } : Account)⟩] c R next) :
    ValidFrom p terms held [] c₀ R (setPlatformRole u role next) := by
  refine valid_write hR fun c view _ hagrees hsees => ?_
  obtain rfl := hsees.eq
  have hrow : view (.account u) = some account := (hagrees _ (covers_account hroles u)).trans haccount
  exact ⟨_, puts_modify hrow _, by simp, by simpa [discipline, guard] using hroles, h view hagrees⟩

theorem valid_platformRole (haccounts : terms.accounts) {u : υ} {role : PlatformRole}
    (hroles : .platformRoles ∈ held) (haccount : c₀.account u = some account) (hset : MaySet c₀ u role) :
    (discipline p terms).Valid (.commit (.platformRole u role)) fun s i =>
      (discipline p terms).Knows held [⟨.account u, some ({ account with vaiTro := role } : Account)⟩] c₀ s i ∧
        R s i := by
  refine valid_commit fun s i _ hknows _ _ => ⟨haccounts, account, ?_, ?_, hknows.wrote⟩
  · exact (hknows.agrees _ (covers_account hroles u)).trans haccount
  · exact maySet_congr hroles hknows.agrees hset

theorem valid_keepsAdmin {u : υ} {role : PlatformRole} {put : Command υ ω} {demotes : Prop} [Decidable demotes]
    (hroles : .platformRoles ∈ held) (haccount : c₀.account u = some account)
    (hdemotes : account.vaiTro = .superAdmin → role ≠ .superAdmin → demotes)
    (hput : ∀ c, c.account u = some account → MaySet c u role → ValidFrom p terms held [] c (fun _ _ => True) put) :
    ValidFrom p terms held [] c₀ (fun _ _ => True) (if demotes then countAdmins p put else put) := by
  split
  · refine valid_countAdmins lasts u fun c hagrees hother => hput c ?_ fun _ _ => hother
    exact (hagrees _ (covers_account hroles _)).trans haccount
  · rename_i hkept
    refine hput c₀ haccount fun hadmin hrole => absurd (hdemotes ?_ hrole) hkept
    obtain ⟨account', hrow, hsuper, _⟩ := hadmin
    rw [haccount] at hrow
    rwa [some.inj hrow]

theorem valid_updatePlatformRole (haccounts : terms.accounts) (r : PlatformRoleUpdate υ) :
    ValidAtStart p terms (updatePlatformRole p r) := by
  refine valid_begin fun c₀ => ?_
  unfold updatePlatformRole
  refine valid_verifySession lasts fun c₁ _ _ _ _ => ?_
  refine valid_select lasts fun c₂ view₂ _ _ _ _ => valid_unless fun _ => ?_
  refine valid_query lasts fun c₃ (view₃ : Rows υ ω) _ _ _ hsees => valid_unless fun hactive => ?_
  obtain rfl := hsees.eq
  rw [not_not] at hactive
  obtain ⟨account, haccount, _⟩ := hactive
  refine valid_query lasts fun c₄ (view₄ : Rows υ ω) _ _ hagrees₄ hsees => ?_
  obtain rfl := hsees.eq
  have hroles : Key.platformRoles ∈ [Key.platformRoles, Key.account (ω := ω) r.session.user] :=
    mem_cons_self
  have haccount₄ : view₄.account r.user = some account := (hagrees₄ _ (covers_account hroles _)).trans haccount
  refine valid_keepsAdmin hroles haccount₄ (fun hsuper hrole => ⟨?_, hrole⟩) fun c hc hset => ?_
  · rw [haccount₄]
    exact decide_eq_true hsuper
  · refine valid_setPlatformRole lasts hroles hc fun c' hagrees => ?_
    exact valid_platformRole haccounts (mem_cons_of_mem _ hroles)
      ((hagrees _ (covers_account hroles _)).trans hc) (maySet_congr hroles hagrees hset)

theorem valid_setMemberRole (hR : (discipline p terms).Lasting R) {u : υ} {o : ω} {role : MemberRole} {m : Member}
    {next : Command υ ω} (ho : .organization o ∈ held) (hm : c₀.member u o = some m)
    (hrows : .member u o ∉ rows.map Sigma.fst)
    (h : ∀ c, Agrees p terms held c c₀ →
      ValidFrom p terms (.member u o :: held) (⟨.member u o, some ({ m with vaiTro := role } : Member)⟩ :: rows) c R next) :
    ValidFrom p terms held rows c₀ R (setMemberRole u o role next) := by
  refine valid_write hR fun c view _ hagrees hsees => ?_
  have hrow : view (.member u o) = some m :=
    ((hsees.2 _ hrows).trans (hagrees _ (covers_member ho u))).trans hm
  refine ⟨_, puts_modify hrow _, ?_, by simpa [discipline, guard] using ho, h c hagrees⟩
  intro row hmem
  rw [mem_singleton.mp hmem]
  exact hrows

theorem valid_updateOrganizationRole (hterms : terms.Lawful p) (r : OrganizationRoleUpdate υ ω) :
    ValidAtStart p terms (updateOrganizationRole p r) := by
  refine valid_begin fun c₀ => ?_
  unfold updateOrganizationRole
  refine valid_verifySession lasts fun c₁ account _ _ _ => valid_activeOrg lasts fun _ => ?_
  refine valid_query lasts fun c₂ view₂ _ _ _ _ => valid_unless fun _ => ?_
  refine valid_select lasts fun c₃ view₃ _ _ _ _ => ?_
  refine valid_query lasts fun c₄ view₄ _ _ _ _ => ?_
  refine valid_query lasts fun c₅ view₅ _ _ _ _ => ?_
  refine valid_query lasts fun c₆ (view₆ : Rows υ ω) _ _ _ hsees => ?_
  obtain rfl := hsees.eq
  have ho : Key.organization r.organization ∈
      [Key.organization r.organization, Key.account r.session.user] := mem_cons_self
  split
  · exact True.intro
  rename_i target htarget
  refine valid_unless fun _ => ?_
  have hput : ∀ (c : Rows υ ω) (R : World ι υ ω → ι → Prop), (discipline p terms).Lasting R →
      c.member r.user r.organization = some target → (∀ s i, R s i → target.vaiTro = .manager → r.role ≠ .manager →
        terms.counted r.organization r.user s i) → (discipline p terms).Valid (setMemberRole r.user r.organization r.role
        (.commit (.organizationRole r.user r.organization r.role))) fun s i =>
          (discipline p terms).Knows [.organization r.organization, .account r.session.user] [] c s i ∧
            R s i := by
    intro c R hR hc hcounted
    refine valid_setMemberRole hR ho hc (by simp) fun c' hagrees => ?_
    refine valid_commit fun s i _ hknows hr _ => ⟨target, ?_, hcounted s i hr, hknows.wrote⟩
    exact ((hknows.agrees _ (covers_of_mem (by simp))).trans (hagrees _ (covers_member ho _))).trans hc
  split
  · refine valid_countManagers hterms ho fun c hagrees => ?_
    exact hput c _ (lasting_counted hterms _ _) ((hagrees _ (covers_member ho _)).trans htarget) fun s i h _ _ => h.2
  · rename_i hkept
    exact hput view₆ _ lasts htarget fun s i _ hmanager hrole => absurd ⟨hmanager, hrole⟩ hkept

theorem valid_settingsSubscription (hR : (discipline p terms).Lasting R)
    (r : AccessSettings υ ω) {o : ω} {next : Command υ ω} (hrows : .subscription o ∉ rows.map Sigma.fst)
    (h : ∀ c held' subscriptionRows, (∀ k ∈ held, k ∈ held') →
      Agrees p terms held c c₀ → (∀ row ∈ subscriptionRows, row.1 = .subscription o) →
      ValidFrom p terms held' (subscriptionRows ++ rows) c R next) :
    ValidFrom p terms held rows c₀ R (settingsSubscription p r o next) := by
  have hput : ∀ (c : Rows υ ω) (row : Option Subscription), Agrees p terms held c c₀ →
      ValidFrom p terms held rows c R (.write (.set (.subscription o) row) next) := by
    intro c row hc
    refine valid_write hR fun c' view _ hagrees _ => ⟨_, puts_set view _ _, ?_, by simp [discipline, guard], ?_⟩
    · intro kv hkv
      rw [mem_singleton.mp hkv]
      exact hrows
    · exact h c' _ _ (fun k hk => mem_append_right _ hk) (fun k hk => (hagrees k hk).trans (hc k hk)) (by simp)
  unfold settingsSubscription
  split
  · exact h c₀ held [] (fun _ hk => hk) (fun _ _ => rfl) (by simp)
  split
  · exact hput c₀ none fun _ _ => rfl
  refine valid_query hR fun c view _ _ hagrees _ => ?_
  split
  · exact True.intro
  · refine valid_unless fun _ => valid_query hR fun c' view' _ _ hagrees' _ => ?_
    exact hput c' _ fun k hk => (hagrees' k hk).trans (hagrees k hk)

theorem valid_settingsOrganization (hterms : terms.Lawful p) (haccounts : terms.accounts) (r : AccessSettings υ ω)
    (hroles : .platformRoles ∈ held) (haccount : c₀.account r.user = some account) (hset : MaySet c₀ r.user r.platformRole) :
    (discipline p terms).Valid (settingsOrganization p r) fun s i => (discipline p terms).Knows held
      [⟨.account r.user, some ({ account with vaiTro := r.platformRole } : Account)⟩] c₀ s i ∧ True := by
  unfold settingsOrganization
  split
  · exact valid_platformRole haccounts hroles haccount hset
  rename_i o _
  refine valid_select lasts fun c₁ view₁ _ _ hagrees₁ _ => ?_
  refine valid_query lasts fun c₂ (view₂ : Rows υ ω) _ _ hagrees₂ hsees => ?_
  have hmore : ∀ k, (discipline p terms).Covers held k → (discipline p terms).Covers (.organization o :: held) k :=
    fun k hk => hk.imp (mem_cons_of_mem _) (mem_cons_of_mem _)
  have hsame : Agrees p terms held c₂ c₀ :=
    fun k hk => (hagrees₂ k (hmore k hk)).trans (hagrees₁ k hk)
  have ho : Key.organization o ∈ Key.organization o :: held := mem_cons_self
  have hput : ∀ (c : Rows υ ω) (R : World ι υ ω → ι → Prop) (m : Member) (role : MemberRole),
      (discipline p terms).Lasting R → Agrees p terms (.organization o :: held) c c₂ →
      c.member r.user o = some m → (∀ s i, R s i → m.vaiTro = .manager → role ≠ .manager → terms.counted o r.user s i) →
      (discipline p terms).Valid (setMemberRole r.user o role (settingsSubscription p r o
        (.commit (.settings r.user r.platformRole o role)))) fun s i =>
          (discipline p terms).Knows (.organization o :: held)
            [⟨.account r.user, some ({ account with vaiTro := r.platformRole } : Account)⟩] c s i ∧ R s i := by
    intro c R m role hR hc hm hcounted
    refine valid_setMemberRole hR ho hm (by simp) fun c₃ hagrees₃ => ?_
    refine valid_settingsSubscription hR r (by simp) fun c₄ held' subscriptionRows hsub hagrees₄ hkeys => ?_
    refine valid_commit fun s i _ hknows hr _ => ?_
    have hcommitted : Agrees p terms (.organization o :: held) s.tables.committed c₂ := by
      intro k hk
      have hk' : (discipline p terms).Covers (.member r.user o :: .organization o :: held) k :=
        hk.imp (mem_cons_of_mem _) (mem_cons_of_mem _)
      exact (((hknows.agrees k (hk'.imp (hsub _) (hsub _))).trans (hagrees₄ k hk')).trans (hagrees₃ k hk)).trans (hc k hk)
    have hcommitted₀ : Agrees p terms held s.tables.committed c₀ :=
      fun k hk => (hcommitted k (hmore k hk)).trans (hsame k hk)
    refine ⟨haccounts, account, m, subscriptionRows, ?_, ?_, ?_, hcounted s i hr, hkeys, hknows.wrote⟩
    · exact (hcommitted₀ _ (covers_account hroles _)).trans haccount
    · exact ((hcommitted _ (covers_member ho _)).trans (hc _ (covers_member ho _)).symm).trans hm
    · exact maySet_congr hroles hcommitted₀ hset
  split
  · rename_i m role hmember _
    have hm : Rows.member c₂ r.user o = some m := (hsees.2 _ (by simp)).symm.trans hmember
    refine valid_unless fun _ => ?_
    split
    · refine valid_countManagers hterms ho fun c hagrees => ?_
      exact hput c _ m role (lasting_counted hterms _ _) hagrees ((hagrees _ (covers_member ho _)).trans hm)
        fun s i h _ _ => h.2
    · rename_i hkept
      exact hput c₂ _ m role lasts (fun _ _ => rfl) hm fun s i _ hmanager hrole => absurd ⟨hmanager, hrole⟩ hkept
  · exact True.intro

theorem valid_updateAccessSettings (hterms : terms.Lawful p) (haccounts : terms.accounts) (r : AccessSettings υ ω) :
    ValidAtStart p terms (updateAccessSettings p r) := by
  refine valid_begin fun c₀ => ?_
  unfold updateAccessSettings
  refine valid_verifySession lasts fun c₁ _ _ _ _ => ?_
  refine valid_select lasts fun c₂ view₂ _ _ _ _ => ?_
  refine valid_query lasts fun c₃ (view₃ : Rows υ ω) _ _ _ hsees => ?_
  obtain rfl := hsees.eq
  have hroles : Key.platformRoles ∈ [Key.platformRoles, Key.account (ω := ω) r.session.user] :=
    mem_cons_self
  split
  · exact True.intro
  rename_i target htarget
  refine valid_unless fun _ => ?_
  refine valid_keepsAdmin hroles htarget (fun hsuper hrole => ⟨hsuper, hrole⟩) fun c hc hset => ?_
  refine valid_setPlatformRole lasts hroles hc fun c' hagrees => valid_unless fun _ => ?_
  exact valid_settingsOrganization hterms haccounts r (mem_cons_of_mem _ hroles)
    ((hagrees _ (covers_account hroles _)).trans hc) (maySet_congr hroles hagrees hset)

end Roles

section Deactivation

variable {p} {terms} {held : List (Key υ ω)} {c₀ : Rows υ ω} {R : World ι υ ω → ι → Prop}

theorem valid_lockOrganizations (hR : (discipline p terms).Lasting R) (organizations : List ω)
    {next : Command υ ω}
    (h : ∀ c held', (∀ k ∈ held, k ∈ held') → (∀ o ∈ organizations, .organization o ∈ held') → Agrees p terms held c c₀ →
      ValidFrom p terms held' [] c R next) :
    ValidFrom p terms held [] c₀ R (lockOrganizations organizations next) := by
  induction organizations generalizing held c₀ with
  | nil => exact h c₀ held (fun _ hk => hk) (by simp) fun _ _ => rfl
  | cons o rest ih =>
    rw [lockOrganizations]
    refine valid_select hR fun c view _ _ hagrees _ => ih fun c' held' hsub hrest hagrees' => ?_
    refine h c' held' (fun k hk => hsub k (mem_cons_of_mem _ hk)) ?_ fun k hk => ?_
    · intro o' ho'
      rcases mem_cons.mp ho' with rfl | ho'
      · exact hsub _ mem_cons_self
      · exact hrest o' ho'
    · exact (hagrees' k (hk.imp (mem_cons_of_mem _) (mem_cons_of_mem _))).trans (hagrees k hk)

omit [DecidableEq υ] [DecidableEq ω] in
theorem isManager_congr {c c' : Rows υ ω} {u : υ} {o : ω} (h : c.member u o = c'.member u o) :
    c.IsManager u o ↔ c'.IsManager u o := by
  rw [Rows.IsManager, Rows.IsManager, h]

omit [DecidableEq υ] [DecidableEq ω] in
theorem isActiveAccount_congr {c c' : Rows υ ω} {u : υ} (h : c.account u = c'.account u) :
    c.IsActiveAccount u ↔ c'.IsActiveAccount u := by
  rw [Rows.IsActiveAccount, Rows.IsActiveAccount, h]

omit [DecidableEq ω] in
theorem hasOtherManager_iff {c : Rows υ ω} {u : υ} {o : ω} : hasOtherManager p c u o = true ↔
    ∃ v ∈ p.accounts, v ≠ u ∧ c.IsManager v o ∧ c.IsActiveAccount v := by
  rw [hasOtherManager, decide_eq_true_eq, Finset.Nonempty]
  simp only [Finset.mem_filter]

omit [DecidableEq ω] in
theorem hasOtherManager_congr {c c' : Rows υ ω} {u : υ} {o : ω}
    (hmember : ∀ v, c.member v o = c'.member v o) (haccount : ∀ v, c.account v = c'.account v) :
    hasOtherManager p c u o = hasOtherManager p c' u o := by
  rw [Bool.eq_iff_iff, hasOtherManager_iff, hasOtherManager_iff]
  simp only [isManager_congr (hmember _), isActiveAccount_congr (haccount _)]

theorem valid_deleteUser (hterms : terms.Lawful p) (haccounts : terms.accounts) (r : Deactivation υ) :
    ValidAtStart p terms (deleteUser p r) := by
  refine valid_begin fun c₀ => ?_
  unfold deleteUser
  refine valid_unless fun _ => valid_verifySession lasts fun c₁ _ _ _ _ => ?_
  refine valid_select lasts fun c₂ view₂ _ _ _ _ => ?_
  refine valid_select lasts fun c₃ (view₃ : Rows υ ω) _ _ _ hsees => ?_
  obtain rfl := hsees.eq
  split
  · exact True.intro
  rename_i target htarget
  split
  · exact valid_commit fun s i _ hknows _ _ => hknows.wrote
  have hroles : Key.platformRoles ∈ [Key.account r.user, Key.platformRoles, Key.account (ω := ω) r.session.user] := by simp
  have hput : ∀ c : Rows υ ω, c.account r.user = some target → (c.IsAdmin r.user → ∃ v, v ≠ r.user ∧ c.IsAdmin v) →
      (discipline p terms).Valid (.query fun (view : Rows υ ω) _ =>
          lockOrganizations (p.organizations.filter fun o => view.IsManager r.user o) <|
            .query fun (view' : Rows υ ω) _ =>
              if p.organizations.any fun o => view'.IsManager r.user o ∧ ¬ hasOtherManager p view' r.user o then
                .refuse
              else .write (.modify (.account r.user) fun account : Account => { account with active := false })
                (.commit (.deactivated r.user (p.organizations.filter fun o => view.IsManager r.user o))))
        fun s i => (discipline p terms).Knows [.account r.user, .platformRoles, .account r.session.user] [] c s i ∧ True := by
    intro c hc hother
    refine valid_query lasts fun c₄ (view₄ : Rows υ ω) _ _ hagrees₄ _ => ?_
    refine valid_lockOrganizations lasts _ fun c₅ held' hheld horganizations hagrees₅ => ?_
    refine valid_query lasts fun c₆ (view₆ : Rows υ ω) _ _ hagrees₆ hsees => valid_unless fun hlast => ?_
    obtain rfl := hsees.eq
    have hsame : ∀ k, (discipline p terms).Covers
        [.account r.user, .platformRoles, .account r.session.user] k → view₆ k = c k := fun k hk =>
      ((hagrees₆ k (hk.imp (hheld _) (hheld _))).trans (hagrees₅ k hk)).trans (hagrees₄ k hk)
    have hroles' : Key.platformRoles ∈ held' := hheld _ hroles
    refine valid_write lasts fun c₇ view₇ _ hagrees₇ hsees => ?_
    obtain rfl := hsees.eq
    have hrow : view₇ (.account r.user) = some target :=
      ((hagrees₇ _ (covers_account hroles' _)).trans (hsame _ (covers_account hroles _))).trans hc
    refine ⟨_, puts_modify hrow _, by simp, by simpa [discipline, guard] using hroles', ?_⟩
    refine valid_commit fun s i _ hknows _ hmeets => ?_
    have hcommitted : Agrees p terms held' s.tables.committed view₆ := fun k hk =>
      (hknows.agrees k (hk.imp (mem_append_right _) (mem_append_right _))).trans (hagrees₇ k hk)
    refine ⟨haccounts, target, ?_, fun hadmin => ?_, fun o ho hmanager => ?_,
      fun o ho => hknows.locked _ (mem_append_right _ (horganizations o ho)), hterms.cover hmeets, hknows.wrote⟩
    · exact ((hcommitted _ (covers_account hroles' _)).trans (hsame _ (covers_account hroles _))).trans hc
    · rw [isAdmin_congr ((hcommitted _ (covers_account hroles' _)).trans (hsame _ (covers_account hroles _)))]
        at hadmin
      exact exists_admin_congr hroles' hcommitted (exists_admin_congr hroles hsame (hother hadmin))
    · have hlocked := horganizations o ho
      have hmember : ∀ v, Rows.member s.tables.committed v o = view₆.member v o := fun v =>
        hcommitted _ (covers_member hlocked v)
      rw [hasOtherManager_congr hmember fun v => hcommitted _ (covers_account hroles' v)]
      rw [isManager_congr (hmember _)] at hmanager
      by_contra hnone
      refine hlast (any_eq_true.mpr ⟨o, mem_of_mem_filter ho, ?_⟩)
      exact decide_eq_true ⟨hmanager, hnone⟩
  split
  · refine valid_countAdmins lasts r.user fun c hagrees hother => hput c ?_ fun _ => hother
    exact (hagrees _ (covers_account hroles _)).trans htarget
  · rename_i hkept
    refine hput view₃ htarget fun hadmin => ?_
    obtain ⟨account, hrow, hsuper, _⟩ := hadmin
    rw [htarget] at hrow
    exact absurd (by rwa [some.inj hrow]) hkept

end Deactivation

section Subscriptions

variable {p} {terms} {held : List (Key υ ω)} {c₀ : Rows υ ω} {R : World ι υ ω → ι → Prop}

theorem valid_putSubscription {o : ω} {organization : Option (Organization υ)} {sub : Subscription}
    {active : Bool} :
    (discipline p terms).Valid (putSubscription o organization sub active (.commit (.subscription o)))
      fun s i => (discipline p terms).Knows held [] c₀ s i ∧ True := by
  unfold putSubscription
  split
  · refine valid_write lasts fun c view _ _ _ => ⟨_, puts_set view _ _, by simp, by simp [discipline, guard], ?_⟩
    exact valid_commit fun s i _ hknows _ _ => ⟨_, by simp, hknows.wrote⟩
  · refine valid_write lasts fun c view _ _ _ => ⟨_, puts_set view _ _, by simp, by simp [discipline, guard], ?_⟩
    refine valid_write lasts fun c view _ _ _ => ⟨_, puts_set view _ _, by simp, by simp [discipline, guard], ?_⟩
    exact valid_commit fun s i _ hknows _ _ => ⟨_, by simp, hknows.wrote⟩

theorem valid_updateOrganizationSubscription (r : SubscriptionUpdate υ ω) :
    ValidAtStart p terms (updateOrganizationSubscription r) := by
  refine valid_begin fun c₀ => ?_
  unfold updateOrganizationSubscription
  refine valid_verifySession lasts fun c₁ _ _ _ _ => ?_
  split
  · exact valid_commit fun s i _ hknows _ _ => hknows.wrote
  refine valid_select lasts fun c₂ view₂ _ _ _ _ => valid_select lasts fun c₃ view₃ now _ _ _ => ?_
  split
  · exact True.intro
  dsimp only
  split
  · exact valid_putSubscription
  · exact valid_query lasts fun c₄ view₄ _ _ _ _ => valid_unless fun _ => valid_putSubscription
  · exact valid_unless fun _ => valid_putSubscription
  · refine valid_query lasts fun c₄ (view₄ : Rows υ ω) _ _ _ _ => ?_
    split
    · exact True.intro
    · refine valid_unless fun _ => valid_write lasts fun c view _ _ _ =>
        ⟨_, puts_set view _ _, by simp, by simp [discipline, guard], ?_⟩
      exact valid_commit fun s i _ hknows _ _ => ⟨_, by simp, hknows.wrote⟩

theorem valid_updateSystemPackage (r : PackageUpdate υ) : ValidAtStart p terms (updateSystemPackage (ω := ω) r) := by
  refine valid_begin fun c₀ => ?_
  unfold updateSystemPackage
  refine valid_verifySession lasts fun c₁ _ _ _ _ => valid_select lasts fun c₂ view₂ _ _ _ _ => ?_
  refine valid_unless fun _ => valid_write lasts fun c view _ _ _ =>
    ⟨_, puts_set view _ _, by simp, by simp [discipline, guard], ?_⟩
  exact valid_commit fun s i _ hknows _ _ => ⟨r.row, hknows.wrote⟩

end Subscriptions

section Index

variable {p} {terms} {c c' : Rows υ ω} {rows : List (Σ k : Key υ ω, Option (Row k))}

omit [DecidableEq υ] [DecidableEq ω] in
theorem indexed_congr (hinvitation : ∀ id, c'.invitation id = c.invitation id)
    (hpending : ∀ o emailNorm, c'.pending o emailNorm = c.pending o emailNorm) (h : Indexed c) : Indexed c' := by
  intro o emailNorm id
  rw [hpending, hinvitation]
  exact h o emailNorm id

omit [DecidableEq υ] in
theorem indexed_close {id : String} {invitation : Invitation υ ω} {status : InvitationStatus} {now : ℕ}
    {user : Option υ} (h : Indexed c) (hrow : c.invitation id = some invitation)
    (hpending : invitation.status = .pending) (hstatus : status ≠ .pending)
    (hrows : ∀ row ∈ rows, ∃ u o, row.1 = .member u o)
    (hsees : Sees (closedRows id invitation status now user ++ rows) c c') : Indexed c' := by
  have hother : ∀ k : Key υ ω, k ≠ .invitation id → k ≠ .pending invitation.organization invitation.emailNorm →
      (∀ u o, k ≠ .member u o) → c' k = c k := by
    intro k hid hslot hmember
    refine hsees.2 k fun hmem => ?_
    obtain ⟨row, hrow, rfl⟩ := mem_map.mp hmem
    rcases mem_append.mp hrow with hrow | hrow
    · simp only [closedRows, mem_cons, not_mem_nil, or_false] at hrow
      rcases hrow with rfl | rfl
      · exact hid rfl
      · exact hslot rfl
    · obtain ⟨u, o, hkey⟩ := hrows row hrow
      exact hmember u o hkey
  have hclosed : c'.invitation id = some { invitation with
      status := status, respondedAt := some now, acceptedUserId := user } :=
    hsees.1 _ (mem_append_left _ mem_cons_self)
  have hslot : c'.pending invitation.organization invitation.emailNorm = none :=
    hsees.1 ⟨.pending invitation.organization invitation.emailNorm, none⟩ (mem_append_left _ (by simp [closedRows]))
  have hheld := (h invitation.organization invitation.emailNorm id).mpr ⟨invitation, hrow, hpending, rfl, rfl⟩
  intro o emailNorm id'
  by_cases hkey : o = invitation.organization ∧ emailNorm = invitation.emailNorm
  · obtain ⟨rfl, rfl⟩ := hkey
    rw [hslot]
    constructor
    · intro hnone
      cases hnone
    · rintro ⟨invitation', hrow', hpending', horganization, haddress⟩
      by_cases hid : id' = id
      · subst hid
        rw [hclosed] at hrow'
        cases hrow'
        exact absurd hpending' hstatus
      · have hold : c.invitation id' = some invitation' :=
          (hother (.invitation id') (by simpa using hid) (by simp) (by simp)).symm.trans hrow'
        have hsame := (h _ _ id').mpr ⟨invitation', hold, hpending', horganization, haddress⟩
        exact absurd (mem_unique hsame hheld) hid
  · have hsame : c'.pending o emailNorm = c.pending o emailNorm :=
      hother _ (by simp) (fun hk => hkey (by simpa using hk)) (by simp)
    rw [hsame, h o emailNorm id']
    by_cases hid : id' = id
    · subst hid
      constructor
      · rintro ⟨invitation', hrow', -, rfl, rfl⟩
        rw [hrow] at hrow'
        cases hrow'
        exact absurd ⟨rfl, rfl⟩ hkey
      · rintro ⟨invitation', hrow', hpending', -, -⟩
        rw [hclosed] at hrow'
        cases hrow'
        exact absurd hpending' hstatus
    · have hold : c'.invitation id' = c.invitation id' :=
        hother (.invitation id') (by simpa using hid) (by simp) (by simp)
      rw [hold]

omit [DecidableEq υ] [DecidableEq ω] in
theorem indexed_renew {id : String} {invitation invitation' : Invitation υ ω} (h : Indexed c)
    (hrow : c.invitation id = some invitation) (horganization : invitation'.organization = invitation.organization)
    (haddress : invitation'.emailNorm = invitation.emailNorm) (hstatus : invitation'.status = invitation.status)
    (hsees : Sees [⟨.invitation id, some invitation'⟩] c c') : Indexed c' := by
  intro o emailNorm id'
  have hpending : c'.pending o emailNorm = c.pending o emailNorm := hsees.2 _ (by simp)
  rw [hpending, h o emailNorm id']
  by_cases hid : id' = id
  · subst hid
    have hnew : c'.invitation id' = some invitation' := hsees.1 _ mem_cons_self
    rw [hrow, hnew]
    constructor
    · rintro ⟨_, hsame, hopen, rfl, rfl⟩
      cases hsame
      exact ⟨invitation', rfl, hstatus.trans hopen, horganization, haddress⟩
    · rintro ⟨_, hsame, hopen, rfl, rfl⟩
      cases hsame
      exact ⟨invitation, rfl, hstatus.symm.trans hopen, horganization.symm, haddress.symm⟩
  · have hold : c'.invitation id' = c.invitation id' := hsees.2 _ (by simpa using hid)
    rw [hold]

omit [DecidableEq υ] in
theorem indexed_invite {id : String} {invitation : Invitation υ ω} (h : Indexed c) (hrow : c.invitation id = none)
    (hslot : c.pending invitation.organization invitation.emailNorm = none) (hstatus : invitation.status = .pending)
    (hsees : Sees [⟨.invitation id, some invitation⟩,
      ⟨.pending invitation.organization invitation.emailNorm, some id⟩] c c') : Indexed c' := by
  have hnew : c'.invitation id = some invitation := hsees.1 _ mem_cons_self
  have hnewSlot : c'.pending invitation.organization invitation.emailNorm = some id :=
    hsees.1 ⟨.pending invitation.organization invitation.emailNorm, some id⟩ (by simp)
  have hold : ∀ id', id' ≠ id → c'.invitation id' = c.invitation id' := fun id' hid => hsees.2 _ (by simpa using hid)
  intro o emailNorm id'
  by_cases hkey : o = invitation.organization ∧ emailNorm = invitation.emailNorm
  · obtain ⟨rfl, rfl⟩ := hkey
    rw [hnewSlot]
    constructor
    · intro hid
      cases hid
      exact ⟨invitation, hnew, hstatus, rfl, rfl⟩
    · rintro ⟨invitation', hrow', hpending', horganization, haddress⟩
      by_cases hid : id' = id
      · rw [hid]
      rw [hold id' hid] at hrow'
      have hsame := (h _ _ id').mpr ⟨invitation', hrow', hpending', horganization, haddress⟩
      rw [hslot] at hsame
      cases hsame
  · have hsame : c'.pending o emailNorm = c.pending o emailNorm :=
      hsees.2 _ (by simpa using hkey)
    rw [hsame, h o emailNorm id']
    by_cases hid : id' = id
    · subst hid
      rw [hrow, hnew]
      constructor
      · rintro ⟨_, hnone, -⟩
        cases hnone
      · rintro ⟨_, hsome, -, rfl, rfl⟩
        cases hsome
        exact absurd ⟨rfl, rfl⟩ hkey
    · rw [hold id' hid]

omit [DecidableEq ι] [DecidableEq υ] [DecidableEq ω] in
theorem joinedRows_member {u : υ} {o : ω} {activated : Bool} : ∀ row ∈ joinedRows u o activated, row.1 = Key.member u o := by
  intro row hrow
  unfold joinedRows at hrow
  split at hrow
  · rw [mem_singleton.mp hrow]
    rfl
  · cases hrow

/-- The rows that an event is about. -/
def Event.Writes : Event υ ω → Key υ ω → Prop
  | .unchanged, _ => False
  | .removed u o, k | .profileUpdated u o, k | .added _ u o, k | .organizationRole u o _, k => k = .member u o
  | .accepted id u o _, k => k = .invitation id ∨ (∃ o' emailNorm, k = .pending o' emailNorm) ∨ k = .member u o
  | .closed id _, k | .invited id, k => k = .invitation id ∨ ∃ o emailNorm, k = .pending o emailNorm
  | .renewed id, k => k = .invitation id
  | .platformRole u _, k | .deactivated u _, k => k = .account u
  | .settings u _ o _, k => k = .member u o ∨ k = .account u ∨ k = .subscription o
  | .subscription o, k => k = .organization o ∨ k = .subscription o
  | .package id, k => k = .package id

omit [DecidableEq ω] in
/-- A commit leaves every row as it is that its event is not about. -/
theorem kept_of_done {s : World ι υ ω} {i : ι} {e : Event υ ω} (hdone : Done p terms s i e) {k : Key υ ω}
    (hk : ¬ e.Writes k) : (s.tables.commit i).committed k = s.tables.committed k := by
  have hkept : ∀ rows, Wrote s i rows → (∀ row ∈ rows, e.Writes row.1) →
      (s.tables.commit i).committed k = s.tables.committed k := by
    intro rows hwrote hrows
    refine hwrote.sees.2 k fun hmem => hk ?_
    obtain ⟨row, hrow, rfl⟩ := mem_map.mp hmem
    exact hrows row hrow
  cases e with
  | unchanged => exact hkept _ hdone (by simp)
  | removed u o =>
    obtain ⟨m, -, -, hwrote⟩ := hdone
    exact hkept _ hwrote (by simp [Event.Writes])
  | profileUpdated u o =>
    obtain ⟨m, -, hwrote⟩ := hdone
    exact hkept _ hwrote (by simp [Event.Writes])
  | added actor u o =>
    obtain ⟨-, -, -, hwrote⟩ := hdone
    exact hkept _ hwrote (by simp [Event.Writes, activeEmployee])
  | accepted id u o activated =>
    obtain ⟨invitation, now, -, -, -, -, -, hwrote⟩ := hdone
    refine hkept _ hwrote fun row hrow => ?_
    rcases mem_append.mp hrow with hrow | hrow
    · simp only [closedRows, mem_cons, not_mem_nil, or_false] at hrow
      rcases hrow with rfl | rfl <;> simp [Event.Writes]
    · exact .inr (.inr (joinedRows_member row hrow))
  | closed id status =>
    obtain ⟨invitation, now, user, -, -, -, -, hwrote⟩ := hdone
    exact hkept _ hwrote (by simp [Event.Writes, closedRows])
  | renewed id =>
    obtain ⟨invitation, invitation', -, -, -, -, hwrote⟩ := hdone
    exact hkept _ hwrote (by simp [Event.Writes])
  | invited id =>
    obtain ⟨invitation, -, -, -, hwrote⟩ := hdone
    exact hkept _ hwrote (by simp [Event.Writes])
  | platformRole u role =>
    obtain ⟨-, account, -, -, hwrote⟩ := hdone
    exact hkept _ hwrote (by simp [Event.Writes])
  | organizationRole u o role =>
    obtain ⟨m, -, -, hwrote⟩ := hdone
    exact hkept _ hwrote (by simp [Event.Writes])
  | settings u role o organizationRole =>
    obtain ⟨-, account, m, subscriptionRows, -, -, -, -, hkeys, hwrote⟩ := hdone
    refine hkept _ hwrote fun row hrow => ?_
    rcases mem_append.mp hrow with hrow | hrow
    · exact .inr (.inr (hkeys row hrow))
    · simp only [mem_cons, not_mem_nil, or_false] at hrow
      rcases hrow with rfl | rfl <;> simp [Event.Writes]
  | deactivated u organizations =>
    obtain ⟨-, account, -, -, -, -, -, hwrote⟩ := hdone
    exact hkept _ hwrote (by simp [Event.Writes])
  | subscription o =>
    obtain ⟨rows, hkeys, hwrote⟩ := hdone
    exact hkept _ hwrote hkeys
  | package id =>
    obtain ⟨row, hwrote⟩ := hdone
    exact hkept _ hwrote (by simp [Event.Writes])

/-- No commit leaves two open invitations for one address and organization. -/
theorem indexed_commit {s : World ι υ ω} {i : ι} {e : Event υ ω} (h : Indexed s.tables.committed)
    (hdone : Done p terms s i e) : Indexed (s.tables.commit i).committed := by
  cases e with
  | accepted id u o activated =>
    obtain ⟨invitation, now, -, -, hconsent, -, -, hwrote⟩ := hdone
    exact indexed_close h hconsent.row hconsent.pending InvitationStatus.noConfusion
      (fun row hrow => ⟨u, o, joinedRows_member row hrow⟩) hwrote.sees
  | closed id status =>
    obtain ⟨invitation, now, user, hrow, hpending, hstatus, -, hwrote⟩ := hdone
    rw [← append_nil (closedRows id invitation status now user)] at hwrote
    exact indexed_close h hrow hpending hstatus (by simp) hwrote.sees
  | renewed id =>
    obtain ⟨invitation, invitation', hrow, horganization, haddress, hstatus, hwrote⟩ := hdone
    exact indexed_renew h hrow horganization haddress hstatus hwrote.sees
  | invited id =>
    obtain ⟨invitation, hrow, hslot, hstatus, hwrote⟩ := hdone
    exact indexed_invite h hrow hslot hstatus hwrote.sees
  | _ =>
    refine indexed_congr (fun id => ?_) (fun o emailNorm => ?_) h <;> exact kept_of_done hdone (by simp [Event.Writes])

end Index

end Bidding.Members
