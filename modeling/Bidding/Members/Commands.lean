import Mathlib.Data.Finset.Card
import Bidding.Foundations.Transactions

/-!
# Members of organizations

The commands that change who belongs to an organization, with which role, which accounts are active or administer the
platform, and who is invited: each a transaction, statement by statement. An index and an advisory lock are rows too.
-/

namespace Bidding.Members

open Foundations

/-! ## Rows -/

/-- `tai_khoan.vai_tro`. -/
inductive PlatformRole where
  | superAdmin
  | user
  deriving DecidableEq

/-- `thanh_vien_to_chuc.vai_tro_trong_to_chuc`. -/
inductive MemberRole where
  | manager
  | employee
  deriving DecidableEq

inductive ActiveRole where
  | superAdmin
  | manager
  | employee
  deriving DecidableEq

/-- `organization_invitations.status`. -/
inductive InvitationStatus where
  | pending
  | accepted
  | declined
  | revoked
  deriving DecidableEq

/-- `organization_subscriptions.status`. -/
inductive SubscriptionStatus where
  | active
  | suspended
  | expired
  | cancelled
  deriving DecidableEq

/-- The columns of `tai_khoan` that are read or written here; `active` stands for `trang_thai = 'active'`. -/
structure Account where
  vaiTro : PlatformRole
  active : Bool
  emailNorm : String
  daXacMinh : Bool
  deriving DecidableEq

/-- A row of `thanh_vien_to_chuc`; `active` stands for `trang_thai_thanh_vien = 'active'`, else it is
`'left'`. -/
structure Member where
  vaiTro : MemberRole
  active : Bool
  deriving DecidableEq

/-- A row of `to_chuc`; `active` stands for `trang_thai = 'active'`. -/
structure Organization (υ : Type) where
  active : Bool
  ownerUserId : Option υ
  deriving DecidableEq

structure Subscription where
  packageId : String
  status : SubscriptionStatus
  startsAt : ℕ
  expiresAt : Option ℕ
  memberQuota : ℕ
  deriving DecidableEq

/-- A row of `goi_dich_vu`. -/
structure Package where
  hanMucNhanSu : ℕ
  active : Bool
  deriving DecidableEq

structure Invitation (υ ω : Type) where
  organization : ω
  emailNorm : String
  invitedBy : υ
  status : InvitationStatus
  createdAt : ℕ
  expiresAt : ℕ
  respondedAt : Option ℕ
  acceptedUserId : Option υ
  deriving DecidableEq

/-- The rows of the tables, the entries of `idx_org_invitations_pending`, and
`lock_platform_role_invariants`. -/
inductive Key (υ ω : Type) where
  | account (u : υ)
  | member (u : υ) (o : ω)
  | organization (o : ω)
  | subscription (o : ω)
  | package (id : String)
  | invitation (id : String)
  | pending (o : ω) (emailNorm : String)
  | platformRoles
  deriving DecidableEq

variable {υ ω : Type}

def Row : Key υ ω → Type
  | .account _ => Account
  | .member _ _ => Member
  | .organization _ => Organization υ
  | .subscription _ => Subscription
  | .package _ => Package
  | .invitation _ => Invitation υ ω
  | .pending _ _ => String
  | .platformRoles => Unit

abbrev Rows (υ ω : Type) := ∀ k : Key υ ω, Option (Row k)

namespace Rows

variable (c : Rows υ ω)

def account (u : υ) : Option Account := c (.account u)

def member (u : υ) (o : ω) : Option Member := c (.member u o)

def organization (o : ω) : Option (Organization υ) := c (.organization o)

def subscription (o : ω) : Option Subscription := c (.subscription o)

def package (id : String) : Option Package := c (.package id)

def invitation (id : String) : Option (Invitation υ ω) := c (.invitation id)

def pending (o : ω) (emailNorm : String) : Option String := c (.pending o emailNorm)

def IsManager (u : υ) (o : ω) : Prop := ∃ m, c.member u o = some m ∧ m.vaiTro = .manager ∧ m.active = true

def IsActiveMember (u : υ) (o : ω) : Prop := ∃ m, c.member u o = some m ∧ m.active = true

def IsActiveAccount (u : υ) : Prop := ∃ a, c.account u = some a ∧ a.active = true

def IsAdmin (u : υ) : Prop := ∃ a, c.account u = some a ∧ a.vaiTro = .superAdmin ∧ a.active = true

instance (u : υ) (o : ω) : Decidable (c.IsManager u o) :=
  match h : c.member u o with
  | none => isFalse fun ⟨_, hm, _⟩ => by rw [h] at hm; cases hm
  | some m => decidable_of_iff (m.vaiTro = .manager ∧ m.active = true) (by simp [IsManager, h])

instance (u : υ) (o : ω) : Decidable (c.IsActiveMember u o) :=
  match h : c.member u o with
  | none => isFalse fun ⟨_, hm, _⟩ => by rw [h] at hm; cases hm
  | some m => decidable_of_iff (m.active = true) (by simp [IsActiveMember, h])

instance (u : υ) : Decidable (c.IsActiveAccount u) :=
  match h : c.account u with
  | none => isFalse fun ⟨_, ha, _⟩ => by rw [h] at ha; cases ha
  | some a => decidable_of_iff (a.active = true) (by simp [IsActiveAccount, h])

instance (u : υ) : Decidable (c.IsAdmin u) :=
  match h : c.account u with
  | none => isFalse fun ⟨_, ha, _⟩ => by rw [h] at ha; cases ha
  | some a => decidable_of_iff (a.vaiTro = .superAdmin ∧ a.active = true) (by simp [IsAdmin, h])

end Rows

/-! ## Commands -/

/-- The accounts and organizations there are (none of the commands makes one), the organizations in the
order of their ids, and the settings of the server. -/
structure Platform (υ ω : Type) where
  accounts : Finset υ
  organizations : List ω
  trialFullAccess : Bool
  invitationTtl : ℕ

/-- The statements that have a name: the count of the managers before one is taken away. -/
inductive Name (υ ω : Type) where
  | managerCount (target : υ) (organization : ω)

/-- What a commit says it has done. -/
inductive Event (υ ω : Type) where
  | unchanged
  | removed (user : υ) (organization : ω)
  | profileUpdated (user : υ) (organization : ω)
  | added (actor user : υ) (organization : ω)
  | accepted (invitation : String) (user : υ) (organization : ω) (activated : Bool)
  | closed (invitation : String) (status : InvitationStatus)
  | renewed (invitation : String)
  | invited (invitation : String)
  | platformRole (user : υ) (role : PlatformRole)
  | organizationRole (user : υ) (organization : ω) (role : MemberRole)
  | settings (user : υ) (role : PlatformRole) (organization : ω) (organizationRole : MemberRole)
  | deactivated (user : υ) (organizations : List ω)
  | subscription (organization : ω)
  | package (id : String)

abbrev Command (υ ω : Type) := Script (Row (υ := υ) (ω := ω)) (Name υ ω) (Event υ ω)

/-- A session of an account, as its row is when a transaction reads it: whether it is neither revoked nor
over, the role selected for the organization of the request, and whether
`verify_super_admin_controls` passes. -/
structure Session (υ : Type) where
  user : υ
  valid : Bool
  activeRole : Option ActiveRole
  controls : Bool
  deriving DecidableEq

/-- `SessionRole.active_role`: only an administrator of the platform acts as one. -/
def Session.role (s : Session υ) (account : Account) : Option ActiveRole :=
  if s.activeRole = some .superAdmin ∧ account.vaiTro ≠ .superAdmin then none else s.activeRole

/-- `is_manager_role`: the account acts as an administrator of the platform. -/
def isManagerRole (activeRole : Option ActiveRole) (account : Account) : Bool :=
  match activeRole with
  | some role => role = .superAdmin
  | none => account.vaiTro = .superAdmin

section Commands

variable [DecidableEq υ] [DecidableEq ω] (p : Platform υ ω)

variable (session : Session υ)

/-- `verify_session_in_transaction`. -/
def verifySession (superAdmin : Bool) (next : Account → Command υ ω) : Command υ ω :=
  .select (.account session.user) fun (view : Rows υ ω) _ =>
    match view.account session.user with
    | none => .refuse
    | some account =>
      if ¬ account.active ∨ ¬ session.valid then .refuse
      else if superAdmin ∧ ¬ (account.vaiTro = .superAdmin ∧
          isManagerRole (session.role account) account ∧ session.controls) then .refuse
      else next account

/-- `get_active_org` of a session that is valid, for the organization it names, or for the only one of the account where
it names none. -/
def activeOrg (o : ω) (next : Command υ ω) : Command υ ω :=
  .query fun (view : Rows υ ω) _ =>
    if ¬ session.valid ∨ ¬ view.IsActiveAccount session.user then .refuse else
    .query fun (view : Rows υ ω) _ =>
      if ¬ view.IsActiveMember session.user o ∨ ¬ (view.organization o).any (·.active) then .refuse else next

/-- `_lock_and_can_manage_organization_mutation`. -/
def lockAndCanManage (o : ω) (next : Command υ ω) : Command υ ω :=
  if session.activeRole = some .employee then .refuse else
  .select (.organization o) fun (view : Rows υ ω) _ =>
    if (view.organization o).isNone then .refuse else
    .select (.account session.user) fun (view : Rows υ ω) _ =>
      match view.account session.user with
      | none => .refuse
      | some account =>
        if ¬ account.active then .refuse
        else if account.vaiTro = .superAdmin then next
        else .select (.member session.user o) fun (view : Rows υ ω) _ =>
          if view.IsManager session.user o then next else .refuse

def managerCount (c : Rows υ ω) (o : ω) : ℕ := (p.accounts.filter fun u => c.IsManager u o).card

def memberCount (c : Rows υ ω) (o : ω) : ℕ := (p.accounts.filter fun u => c.IsActiveMember u o).card

def adminCount (c : Rows υ ω) : ℕ := (p.accounts.filter fun u => c.IsAdmin u).card

/-- The count of the managers, the last of which is not taken away. -/
def countManagers (target : υ) (o : ω) (next : Command υ ω) : Command υ ω :=
  .statement (some (.managerCount target o)) (fun _ _ => .read) fun (view : Rows υ ω) _ =>
    if managerCount p view o ≤ 1 then .refuse else next

/-- The count of the administrators, the last of which is not taken away. -/
def countAdmins (next : Command υ ω) : Command υ ω :=
  .query fun (view : Rows υ ω) _ => if adminCount p view ≤ 1 then .refuse else next

/-- The body of a removal; `transferred` says whether what the member is responsible for, which other tables
hold, is handed over as it has to be. -/
structure Removal (υ ω : Type) where
  session : Session υ
  organization : ω
  user : υ
  transferred : Bool

def leave (r : Removal υ ω) : Command υ ω :=
  if ¬ r.transferred then .refuse else
  .write (.modify (.member r.user r.organization) fun m : Member => { m with active := false })
    (.commit (.removed r.user r.organization))

/-- `_remove_user_from_org_sync`. -/
def removeUserFromOrg (r : Removal υ ω) : Command υ ω :=
  if r.user = r.session.user then .refuse else
  activeOrg r.session r.organization <| .query fun (view : Rows υ ω) _ =>
    if (view.organization r.organization).isNone then .refuse else
    lockAndCanManage r.session r.organization <| .query fun (view : Rows υ ω) _ =>
      match view.member r.user r.organization with
      | none => .refuse
      | some member =>
        if ¬ member.active then .refuse
        else if member.vaiTro = .manager then countManagers p r.user r.organization (leave r)
        else leave r

/-- The join of `_lock_organization_member_quota`. -/
def quotaTerms (c : Rows υ ω) (o : ω) : Option (Subscription × Organization υ × Package) :=
  (c.subscription o).bind fun sub => (c.organization o).bind fun organization =>
    (c.package sub.packageId).map fun package => (sub, organization, package)

/-- The subscription lets members in. -/
def openTerms (terms : Subscription × Organization υ × Package) (now : ℕ) : Bool :=
  terms.1.status = .active && terms.2.1.active && terms.2.2.active &&
    terms.1.expiresAt.all fun expiresAt => now < expiresAt

/-- The membership is put back, or a new one is added. -/
def putMembership (o : ω) (u : υ) (reactivate : Bool) (next : Command υ ω) : Command υ ω :=
  if reactivate then
    .write (.modify (.member u o) fun m : Member => { m with vaiTro := .employee, active := true }) next
  else .write (.set (.member u o) (some (⟨.employee, true⟩ : Member))) next

/-- `activate_organization_membership`. -/
def activateMembership (o : ω) (u : υ) (reactivate : Bool) (next : Command υ ω) : Command υ ω :=
  if p.trialFullAccess then putMembership o u reactivate next else
  .select (.subscription o) fun (view : Rows υ ω) _ =>
    match quotaTerms view o with
    | none => .refuse
    | some terms => .query fun (view : Rows υ ω) now =>
      if ¬ openTerms terms now then .refuse
      else if terms.1.memberQuota ≤ memberCount p view o then .refuse
      else putMembership o u reactivate next

structure Addition (υ ω : Type) where
  session : Session υ
  organization : ω
  user : υ

/-- `_add_user_to_org_sync`. -/
def addUserToOrg (a : Addition υ ω) : Command υ ω :=
  activeOrg a.session a.organization <| .query fun (view : Rows υ ω) _ =>
    if (view.organization a.organization).isNone then .refuse else
    lockAndCanManage a.session a.organization <| .query fun (view : Rows υ ω) _ =>
      let superAdmin := (view.account a.session.user).any fun account => account.vaiTro = .superAdmin
      .query fun (view : Rows υ ω) _ =>
        if view.IsActiveMember a.user a.organization then
          .write (.modify (.member a.user a.organization) id) (.commit (.profileUpdated a.user a.organization))
        else
          let reactivate := (view.member a.user a.organization).isSome
          if ¬ reactivate ∧ ¬ superAdmin then .refuse else
          .query fun (view : Rows υ ω) _ =>
            match view.account a.user with
            | none => .refuse
            | some target =>
              if ¬ target.active ∨ ¬ superAdmin ∧ target.vaiTro = .superAdmin then .refuse
              else activateMembership p a.organization a.user reactivate (.commit (.added a.session.user a.user a.organization))

/-! ### Invitations -/

def close (id : String) (invitation : Invitation υ ω) (status : InvitationStatus) (now : ℕ) (user : Option υ) :
    Statement (Row (υ := υ) (ω := ω)) :=
  .both (.set (.invitation id) (some ({ invitation with
      status := status, respondedAt := some now, acceptedUserId := user } : Invitation υ ω)))
    (.set (.pending invitation.organization invitation.emailNorm) none)

/-- `_manager_context`, after `get_active_org`. -/
def canInvite (account : Account) (o : ω) (view : Rows υ ω) : Bool :=
  (view.organization o).isSome && session.role account ≠ some .employee &&
    (isManagerRole (session.role account) account || view.IsManager session.user o)

structure InvitationRequest (υ ω : Type) where
  session : Session υ
  organization : ω
  email : String
  /-- the id drawn for a new row -/
  uuid : String
  /-- the rate limit of the organization -/
  limited : Bool

/-- The row that is inserted, where the primary key and the unique index admit it. -/
def insertInvitation (r : InvitationRequest υ ω) (now : ℕ) (view : Rows υ ω) : Option (Statement (Row (υ := υ) (ω := ω))) :=
  if (view.invitation r.uuid).isSome ∨ (view.pending r.organization r.email).isSome then none else
  some (.both (.set (.invitation r.uuid) (some (⟨r.organization, r.email, r.session.user, .pending, now,
      now + p.invitationTtl, none, none⟩ : Invitation υ ω)))
    (.set (.pending r.organization r.email) (some r.uuid : Option String)))

/-- `_create_invitation_sync`. -/
def createInvitation (r : InvitationRequest υ ω) : Command υ ω :=
  verifySession r.session false fun account => activeOrg r.session r.organization <| .query fun (view : Rows υ ω) now =>
    if ¬ canInvite r.session account r.organization view ∨ r.limited ∨ r.email = "" then .refuse else
    -- the index leads to the row that is pending
    .find (fun view : Rows υ ω => (view.pending r.organization r.email).map Key.invitation) fun (view : Rows υ ω) _ =>
      match view.pending r.organization r.email with
      | none => .attempt (fun (view : Rows υ ω) _ => insertInvitation p r now view) (.commit (.invited r.uuid))
      | some id =>
        .write (.modify (.invitation id) fun invitation : Invitation υ ω => { invitation with
            invitedBy := r.session.user, createdAt := now, expiresAt := now + p.invitationTtl })
          (.commit (.renewed id))

structure Revocation (υ ω : Type) where
  session : Session υ
  organization : ω
  invitation : String

/-- `_revoke_invitation_sync`. -/
def revokeInvitation (r : Revocation υ ω) : Command υ ω :=
  verifySession r.session false fun account => activeOrg r.session r.organization <| .query fun (view : Rows υ ω) _ =>
    if ¬ canInvite r.session account r.organization view then .refuse else
    .attempt (fun (view : Rows υ ω) now => (view.invitation r.invitation).bind fun invitation =>
        if invitation.organization = r.organization ∧ invitation.status = .pending then
          some (close r.invitation invitation .revoked now invitation.acceptedUserId)
        else none)
      (.commit (.closed r.invitation .revoked))

def verifiedEmail (c : Rows υ ω) (u : υ) : Option (String × PlatformRole) :=
  (c.account u).bind fun account =>
    if account.daXacMinh ∧ account.active then some (account.emailNorm, account.vaiTro) else none

/-- The inviter is an active administrator of the platform or an active manager still. -/
def inviterStillManager (c : Rows υ ω) (o : ω) (inviter : υ) : Bool :=
  (c.account inviter).any fun account => account.active && (account.vaiTro = .superAdmin || c.IsManager inviter o)

structure Response (υ : Type) where
  session : Session υ
  invitation : String
  accept : Bool

def acceptInvitation (id : String) (invitation : Invitation υ ω) (u : υ) (now : ℕ) (activated : Bool) : Command υ ω :=
  .write (close id invitation .accepted now (some u)) (.commit (.accepted id u invitation.organization activated))

/-- `_respond_invitation_sync`. -/
def respondInvitation (r : Response υ) : Command υ ω :=
  verifySession r.session false fun _ => .query fun (view : Rows υ ω) _ =>
    let verified := verifiedEmail view r.session.user
    .select (.invitation r.invitation) fun (view : Rows υ ω) now =>
      match view.invitation r.invitation, verified with
      | some invitation, some (email, platformRole) =>
        if invitation.status ≠ .pending ∨ email = "" ∨ invitation.emailNorm ≠ email ∨
            invitation.expiresAt ≤ now then .refuse
        else if ¬ r.accept then
          .write (close r.invitation invitation .declined now invitation.acceptedUserId)
            (.commit (.closed r.invitation .declined))
        else if platformRole = .superAdmin then .refuse
        else .select (.organization invitation.organization) fun (view : Rows υ ω) _ =>
          if ¬ (view.organization invitation.organization).any (·.active) then .refuse else
          .query fun (view : Rows υ ω) _ =>
            if ¬ inviterStillManager view invitation.organization invitation.invitedBy then
              .write (close r.invitation invitation .revoked now invitation.acceptedUserId)
                (.commit (.closed r.invitation .revoked))
            else .query fun (view : Rows υ ω) _ =>
              if view.IsActiveMember r.session.user invitation.organization then
                acceptInvitation r.invitation invitation r.session.user now false
              else activateMembership p invitation.organization r.session.user
                (view.member r.session.user invitation.organization).isSome
                (acceptInvitation r.invitation invitation r.session.user now true)
      | _, _ => .refuse

/-! ### Roles -/

structure PlatformRoleUpdate (υ : Type) where
  session : Session υ
  user : υ
  role : PlatformRole

def setPlatformRole (u : υ) (role : PlatformRole) (next : Command υ ω) : Command υ ω :=
  .write (.modify (.account u) fun account : Account => { account with vaiTro := role }) next

/-- `_commit_user_role_update` of the platform. -/
def updatePlatformRole (r : PlatformRoleUpdate υ) : Command υ ω :=
  verifySession r.session true fun _ => .select .platformRoles fun _ _ =>
    if r.user = r.session.user then .refuse else
    .query fun (view : Rows υ ω) _ =>
      if ¬ view.IsActiveAccount r.user then .refuse else
      .query fun (view : Rows υ ω) _ =>
        if (view.account r.user).any (·.vaiTro = .superAdmin) ∧ r.role ≠ .superAdmin then
          countAdmins p (setPlatformRole r.user r.role (.commit (.platformRole r.user r.role)))
        else setPlatformRole r.user r.role (.commit (.platformRole r.user r.role))

structure OrganizationRoleUpdate (υ ω : Type) where
  session : Session υ
  organization : ω
  user : υ
  role : MemberRole

def MemberRole.rank : MemberRole → ℕ
  | .manager => 1
  | .employee => 0

def setMemberRole (u : υ) (o : ω) (role : MemberRole) (next : Command υ ω) : Command υ ω :=
  .write (.modify (.member u o) fun m : Member => { m with vaiTro := role }) next

/-- Whether the roles and the owner of the organization let the actor set the role of the member, with
whether the actor administers the platform. -/
def mayAssign (r : OrganizationRoleUpdate υ ω) (superAdmin : Bool) (actor : Option Member) (owner : Option υ)
    (target : Member) : Bool :=
  (superAdmin || actor.any fun m => m.vaiTro = .manager) &&
  (superAdmin || owner.all fun owner => r.session.user = owner) &&
  ¬ (r.user = r.session.user ∧ r.role ≠ target.vaiTro) &&
  ¬ (owner = some r.user ∧ r.role ≠ .manager) &&
  (superAdmin || owner = some r.session.user || actor.all fun m =>
    target.vaiTro.rank < m.vaiTro.rank && r.role.rank < m.vaiTro.rank)

/-- `_commit_user_role_update` of an organization; the status of the memberships is not looked at. -/
def updateOrganizationRole (r : OrganizationRoleUpdate υ ω) : Command υ ω :=
  verifySession r.session false fun account => activeOrg r.session r.organization <| .query fun (view : Rows υ ω) _ =>
    if (view.organization r.organization).isNone then .refuse else
    .select (.organization r.organization) fun _ _ => .query fun (view : Rows υ ω) _ =>
      let actor := view.member r.session.user r.organization
      .query fun (view : Rows υ ω) _ =>
        let owner := (view.organization r.organization).bind (·.ownerUserId)
        .query fun (view : Rows υ ω) _ =>
          match view.member r.user r.organization with
          | none => .refuse
          | some target =>
            if ¬ mayAssign r (isManagerRole (r.session.role account) account) actor owner target then .refuse
            else if target.vaiTro = .manager ∧ r.role ≠ .manager then
              countManagers p r.user r.organization (setMemberRole r.user r.organization r.role
                  (.commit (.organizationRole r.user r.organization r.role)))
            else setMemberRole r.user r.organization r.role (.commit (.organizationRole r.user r.organization r.role))

/-- The body of `_update_user_access_settings_sync`; `accountPackage` says whether the package of the
account is one that is offered, `organizationRole` is absent where it is no role. -/
structure AccessSettings (υ ω : Type) where
  session : Session υ
  user : υ
  platformRole : PlatformRole
  accountPackage : Bool
  organization : Option ω
  organizationRole : Option MemberRole
  organizationPackageId : Option String
  legacyTerm : ℕ

/-- The subscription of the organization after the settings. -/
def renewedSubscription (current : Option Subscription) (packageId : String) (quota now term : ℕ) : Subscription :=
  let startsAt := (current.map (·.startsAt)).getD now
  let expiresAt := ((current.bind (·.expiresAt)).filter (· ≠ 0)).getD (now + term)
  if expiresAt ≤ now then ⟨packageId, .active, now, some (now + term), quota⟩
  else ⟨packageId, .active, startsAt, some expiresAt, quota⟩

variable (r : AccessSettings υ ω)

def settingsSubscription (o : ω) (next : Command υ ω) : Command υ ω :=
  if p.trialFullAccess then next else
  match r.organizationPackageId with
  | none => .write (.set (.subscription o) none) next
  | some packageId => .query fun (view : Rows υ ω) _ =>
    match view.package packageId with
    | none => .refuse
    | some package =>
      if ¬ package.active then .refuse else
      .query fun (view : Rows υ ω) now =>
        .write (.set (.subscription o) (some (renewedSubscription (view.subscription o) packageId
          package.hanMucNhanSu now r.legacyTerm))) next

/-- The part of the settings that is about an organization. -/
def settingsOrganization : Command υ ω :=
  match r.organization with
  | none => .commit (.platformRole r.user r.platformRole)
  | some o => .select (.organization o) fun _ _ => .query fun (view : Rows υ ω) _ =>
    match view.member r.user o, r.organizationRole with
    | some member, some role =>
      let put := setMemberRole r.user o role (settingsSubscription p r o (.commit (.settings r.user r.platformRole o role)))
      if ¬ member.active then .refuse
      else if member.vaiTro = .manager ∧ role ≠ .manager then countManagers p r.user o put
      else put
    | _, _ => .refuse

/-- `_update_user_access_settings_sync`. -/
def updateAccessSettings : Command υ ω :=
  verifySession r.session true fun _ => .select .platformRoles fun _ _ => .query fun (view : Rows υ ω) _ =>
    match view.account r.user with
    | none => .refuse
    | some target =>
      let put := setPlatformRole r.user r.platformRole
        (if ¬ p.trialFullAccess ∧ ¬ r.accountPackage then .refuse else settingsOrganization p r)
      if ¬ target.active ∨ r.user = r.session.user ∧ r.platformRole ≠ target.vaiTro then .refuse
      else if target.vaiTro = .superAdmin ∧ r.platformRole ≠ .superAdmin then countAdmins p put
      else put

structure Deactivation (υ : Type) where
  session : Session υ
  user : υ

/-- `lock_organization_membership_invariants_many`. -/
def lockOrganizations (organizations : List ω) (next : Command υ ω) : Command υ ω :=
  match organizations with
  | [] => next
  | o :: rest => .select (.organization o) fun _ _ => lockOrganizations rest next

def hasOtherManager (c : Rows υ ω) (u : υ) (o : ω) : Bool :=
  (p.accounts.filter fun v => v ≠ u ∧ c.IsManager v o ∧ c.IsActiveAccount v).Nonempty

/-- `_delete_user_sync`. -/
def deleteUser (r : Deactivation υ) : Command υ ω :=
  if r.user = r.session.user then .refuse else
  verifySession r.session true fun _ => .select .platformRoles fun _ _ =>
    .select (.account r.user) fun (view : Rows υ ω) _ =>
      match view.account r.user with
      | none => .refuse
      | some target =>
        if ¬ target.active then .commit .unchanged else
        let deactivate : Command υ ω := .query fun (view : Rows υ ω) _ =>
          let organizations := p.organizations.filter fun o => view.IsManager r.user o
          lockOrganizations organizations <| .query fun (view : Rows υ ω) _ =>
            if p.organizations.any fun o => view.IsManager r.user o ∧ ¬ hasOtherManager p view r.user o then
              .refuse
            else .write (.modify (.account r.user) fun account : Account => { account with active := false })
              (.commit (.deactivated r.user organizations))
        if target.vaiTro = .superAdmin then countAdmins p deactivate else deactivate

inductive SubscriptionAction where
  | lock
  | unlock
  | renew (days : ℕ) (blocked : Bool)
  | setPackage (packageId : String)

structure SubscriptionUpdate (υ ω : Type) where
  session : Session υ
  organization : ω
  action : SubscriptionAction
  /-- the answer to the key of the request is stored already -/
  replay : Bool

def putSubscription (o : ω) (organization : Option (Organization υ)) (sub : Subscription) (active : Bool)
    (next : Command υ ω) : Command υ ω :=
  match organization with
  | none => .write (.set (.subscription o) (some sub)) next
  | some row => .write (.set (.organization o) (some ({ row with active := active } : Organization υ)))
      (.write (.set (.subscription o) (some sub)) next)

/-- `_update_organization_subscription_sync`. -/
def updateOrganizationSubscription (r : SubscriptionUpdate υ ω) : Command υ ω :=
  verifySession r.session true fun _ =>
    if r.replay then .commit .unchanged else
    .select (.organization r.organization) fun _ _ => .select (.subscription r.organization) fun (view : Rows υ ω) now =>
      match view.subscription r.organization with
      | none => .refuse
      | some current =>
        let organization := view.organization r.organization
        let done : Command υ ω := .commit (.subscription r.organization)
        match r.action with
        | .lock => putSubscription r.organization organization { current with status := .suspended } false done
        | .unlock => .query fun (view : Rows υ ω) _ =>
          if current.expiresAt.any (· ≤ now) ∨ ¬ (view.package current.packageId).any (·.active) then .refuse
          else putSubscription r.organization organization { current with status := .active } true done
        | .renew days blocked =>
          if blocked ∨ days < 1 ∨ 3650 < days then .refuse else
          putSubscription r.organization organization { current with
            status := .active
            expiresAt := some (max now (current.expiresAt.getD now) + days * 86400) } true done
        | .setPackage packageId => .query fun (view : Rows υ ω) _ =>
          match view.package packageId with
          | none => .refuse
          | some package =>
            if ¬ package.active then .refuse else
            .write (.set (.subscription r.organization) (some ({ current with
              packageId := packageId, memberQuota := package.hanMucNhanSu } : Subscription))) done

structure PackageUpdate (υ : Type) where
  session : Session υ
  packageId : String
  row : Package
  /-- the package belongs to a published release -/
  published : Bool

/-- `update_system_package_api`. -/
def updateSystemPackage (r : PackageUpdate υ) : Command υ ω :=
  verifySession r.session true fun _ => .select (.package r.packageId) fun (view : Rows υ ω) _ =>
    if (view.package r.packageId).isNone ∨ r.published then .refuse else
    .write (.set (.package r.packageId) (some r.row)) (.commit (.package r.packageId))

end Commands

end Bidding.Members
