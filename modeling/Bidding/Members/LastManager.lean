import Bidding.Members.Consent

/-!
# The last manager and the last administrator

The administrators are counted while the platform roles are held. An organization keeps an effective manager in the runs
in which every count that lets one go finds another, and every deactivation holds the organizations of the account.
-/

namespace Bidding.Members

open Foundations Discipline

variable {ι υ ω : Type} [DecidableEq ι] [DecidableEq υ] [DecidableEq ω]

variable (c : Rows υ ω)

def Effective (u : υ) (o : ω) : Prop := c.IsManager u o ∧ c.IsActiveAccount u

def HasManager (o : ω) : Prop := ∃ u, Effective c u o

def HasAdmin : Prop := ∃ u, c.IsAdmin u

def KeepsManagers (c c' : Rows υ ω) : Prop := ∀ o, HasManager c o → HasManager c' o

def KeepsAdmin (c c' : Rows υ ω) : Prop := HasAdmin c → HasAdmin c'

def OtherManager (u : υ) (o : ω) : Prop := ∃ v, v ≠ u ∧ Effective c v o

/-- All the commands: those on invitations, members and packages, and those on roles and accounts. -/
inductive Governs (p : Platform υ ω) : ℕ → Command υ ω → Prop where
  | consents {now : ℕ} {script : Command υ ω} : Consents p now script → Governs p now script
  | updatePlatformRole (now : ℕ) (r : PlatformRoleUpdate υ) : Governs p now (updatePlatformRole p r)
  | updateOrganizationRole (now : ℕ) (r : OrganizationRoleUpdate υ ω) : Governs p now (updateOrganizationRole p r)
  | updateAccessSettings (now : ℕ) (r : AccessSettings υ ω) : Governs p now (updateAccessSettings p r)
  | deleteUser (now : ℕ) (r : Deactivation υ) : Governs p now (deleteUser p r)

/-- A count of the managers that is passed finds another effective manager, if it is one that is taken away;
and a deactivation that commits holds each organization that the account manages, or else nobody holds it and
there is another effective manager. -/
def Spares (p : Platform υ ω) (s : World ι υ ω) (i : ι) : Command υ ω → Prop
  | .statement (some (.managerCount u o)) _ _ => 1 < managerCount p (s.tables.view i) o →
      Effective s.tables.committed u o → OtherManager s.tables.committed u o
  | .commit (.deactivated u organizations) => ∀ o, Rows.IsManager s.tables.committed u o → o ∈ organizations ∨
      (∀ j, s.tables.locked (.organization o) ≠ some j) ∧ OtherManager s.tables.committed u o
  | _ => True

/-- What is known after a count, where each one spares the last effective manager. -/
def managerTerms (p : Platform υ ω) : Terms ι υ ω where
  rely s s' i := ∀ o, s.tables.locked (.organization o) = some i → ∀ u,
    Effective s'.tables.committed u o ↔ Effective s.tables.committed u o
  meets := Spares p
  counted o u s i := s.tables.locked (.organization o) = some i ∧
    (Effective s.tables.committed u o → OtherManager s.tables.committed u o)
  vouched _ _ _ _ := True
  covered u organizations s := ∀ o, Rows.IsManager s.tables.committed u o → o ∈ organizations ∨
    (∀ j, s.tables.locked (.organization o) ≠ some j) ∧ OtherManager s.tables.committed u o
  timed _ _ := True
  accounts := True

def freeTerms : Terms ι υ ω where
  rely _ _ _ := True
  meets _ _ _ := True
  counted _ _ _ _ := True
  vouched _ _ _ _ := True
  covered _ _ _ := True
  timed _ _ := True
  accounts := True

theorem governs_starts {p : Platform υ ω} {terms : Terms ι υ ω} (hterms : terms.Lawful p)
    (haccounts : terms.accounts) : (discipline p terms).Starts (Governs p) := by
  intro now script hscript
  cases hscript with
  | consents h => exact consents_starts hterms now script h
  | updatePlatformRole r => exact valid_updatePlatformRole haccounts r
  | updateOrganizationRole r => exact valid_updateOrganizationRole hterms r
  | updateAccessSettings r => exact valid_updateAccessSettings hterms haccounts r
  | deleteUser r => exact valid_deleteUser hterms haccounts r

variable {p : Platform υ ω} {terms : Terms ι υ ω} {s s' : World ι υ ω} {i j : ι} {e : Event υ ω}
  {task task' : ι → Option (Command υ ω)} {u : υ} {o : ω}

omit [DecidableEq ω] in
/-- No commit takes away the last administrator of the platform. -/
theorem keepsAdmin_commit (hdone : Done p terms s i e) : KeepsAdmin s.tables.committed (s.tables.commit i).committed := by
  rintro ⟨u, hu⟩
  have hother : ∀ v, (∃ w, w ≠ v ∧ Rows.IsAdmin s.tables.committed w) →
      (∀ w, w ≠ v → Rows.account (s.tables.commit i).committed w = Rows.account s.tables.committed w) →
      HasAdmin (s.tables.commit i).committed := by
    rintro v ⟨w, hw, hadmin⟩ hothers
    exact ⟨w, (isAdmin_congr (hothers w hw)).mpr hadmin⟩
  cases accountChange_of_done hdone u with
  | kept h => exact ⟨u, (isAdmin_congr h).mpr hu⟩
  | role account role _ haccount hrow hlast hothers =>
    by_cases hrole : role = .superAdmin
    · obtain ⟨account', haccount', -, hactive⟩ := hu
      rw [haccount] at haccount'
      cases haccount'
      exact ⟨u, { account with vaiTro := role }, hrow, hrole, hactive⟩
    · exact hother u (hlast hu hrole) hothers
  | deactivated account organizations _ haccount hrow _ hlast hothers => exact hother u (hlast hu) hothers

theorem freeTerms_lawful : (freeTerms (ι := ι)).Lawful p where
  counted := fun _ _ => Lasting.trivial
  count := fun _ _ _ => trivial
  vouched := fun _ _ => Lasting.trivial
  vouch := fun _ _ => trivial
  cover := fun _ => trivial
  time := fun _ => trivial

theorem free_lawful : (discipline p (freeTerms (ι := ι))).Lawful where
  relyQuiet := fun _ => trivial
  settled := fun _ _ hindexed hdone => indexed_commit hindexed hdone
  rely := fun _ _ _ _ _ => trivial

theorem admin_within (hs : (discipline p freeTerms).Sound s task)
    (h : (Script.program (Governs p)).Within (fun _ _ _ => True) s task s' task') :
    (discipline p freeTerms).Sound s' task' ∧ KeepsAdmin s.tables.committed s'.tables.committed :=
  Sound.within free_lawful (governs_starts freeTerms_lawful trivial) (fun _ h => h)
    (fun _ _ _ h h' hadmin => h' (h hadmin)) (fun _ _ _ hdone => keepsAdmin_commit hdone) hs (h.mono fun _ _ _ _ _ _ _ => trivial)

/-! ## Managers -/

section Managers

omit [DecidableEq ω]

omit [DecidableEq υ] in
theorem effective_congr {c c' : Rows υ ω} (hmember : c.member u o = c'.member u o)
    (haccount : c.IsActiveAccount u ↔ c'.IsActiveAccount u) : Effective c u o ↔ Effective c' u o :=
  and_congr (isManager_congr hmember) haccount

theorem isActiveAccount_commit (hdone : Done p terms s i e) (hkept : ∀ organizations, e ≠ .deactivated u organizations) :
    Rows.IsActiveAccount (s.tables.commit i).committed u ↔ Rows.IsActiveAccount s.tables.committed u := by
  cases accountChange_of_done hdone u with
  | kept h => exact isActiveAccount_congr h
  | role account role _ haccount hrow _ _ =>
    constructor
    · rintro ⟨account', hrow', hactive⟩
      rw [hrow] at hrow'
      cases hrow'
      exact ⟨account, haccount, hactive⟩
    · rintro ⟨account', haccount', hactive⟩
      rw [haccount] at haccount'
      cases haccount'
      exact ⟨_, hrow, hactive⟩
  | deactivated account organizations _ _ _ hevent _ _ => exact absurd hevent (hkept organizations)

omit [DecidableEq υ] in
theorem hasManager_of_other {c c' : Rows υ ω} (hother : OtherManager c u o)
    (hsame : ∀ v, v ≠ u → (Effective c' v o ↔ Effective c v o)) : HasManager c' o := by
  obtain ⟨v, hv, heffective⟩ := hother
  exact ⟨v, (hsame v hv).mpr heffective⟩

theorem hasManager_of_onlyMember (hdone : Done p terms s i e)
    (honly : OnlyMember s e (s.tables.commit i).committed u o) (hother : OtherManager s.tables.committed u o) :
    HasManager (s.tables.commit i).committed o :=
  hasManager_of_other hother fun v hv =>
    effective_congr (honly.others v hv) (isActiveAccount_commit hdone fun _ => honly.accounts v _)

theorem hasManager_of_deactivated {organizations : List ω}
    (hdone : Done p (managerTerms p) s i (.deactivated u organizations)) (hu : Effective s.tables.committed u o) :
    HasManager (s.tables.commit i).committed o := by
  obtain ⟨-, account, -, -, hothers, -, hcovered, -⟩ := id hdone
  have hother : OtherManager s.tables.committed u o := by
    rcases hcovered o hu.1 with hmem | ⟨-, hother⟩
    · obtain ⟨v, -, hv, heffective⟩ := hasOtherManager_iff.mp (hothers o hmem hu.1)
      exact ⟨v, hv, heffective⟩
    · exact hother
  refine hasManager_of_other hother fun v hv => effective_congr ?_ (isActiveAccount_congr ?_)
  · exact kept_of_done hdone (by simp [Event.Writes])
  · exact kept_of_done hdone (by simpa [Event.Writes] using hv)

/-- No commit takes away the last manager of an organization that has one. -/
theorem keepsManagers_commit (hdone : Done p (managerTerms p) s i e) :
    KeepsManagers s.tables.committed (s.tables.commit i).committed := by
  rintro o ⟨u, hu⟩
  by_cases hdeactivated : ∃ organizations, e = .deactivated u organizations
  · obtain ⟨organizations, rfl⟩ := hdeactivated
    exact hasManager_of_deactivated hdone hu
  have haccount := isActiveAccount_commit hdone (not_exists.mp hdeactivated)
  obtain ⟨⟨m, hm, hrole, hactive⟩, hactiveAccount⟩ := hu
  have hu : Effective s.tables.committed u o := ⟨⟨m, hm, hrole, hactive⟩, hactiveAccount⟩
  cases memberChange_of_done hdone u o with
  | kept h => exact ⟨u, (effective_congr h haccount).mpr hu⟩
  | left m' hm' _ hcounted honly =>
    rw [hm] at hm'
    cases hm'
    exact hasManager_of_onlyMember hdone honly ((hcounted hrole).2 hu)
  | role m' role hm' hrow hcounted honly =>
    rw [hm] at hm'
    cases hm'
    by_cases hmanager : role = .manager
    · exact ⟨u, ⟨_, hrow, hmanager, hactive⟩, haccount.mpr hactiveAccount⟩
    · exact hasManager_of_onlyMember hdone honly ((hcounted hrole hmanager).2 hu)
  | joined hinactive _ _ => exact absurd ⟨m, hm, hactive⟩ hinactive

theorem effective_commit (hguarded : (discipline p (managerTerms p)).Guarded s)
    (hdone : Done p (managerTerms p) s i e) (hj : j ≠ i) (hlocked : s.tables.locked (.organization o) = some j) (u : υ) :
    Effective (s.tables.commit i).committed u o ↔ Effective s.tables.committed u o := by
  have hmember : Rows.member (s.tables.commit i).committed u o = Rows.member s.tables.committed u o := by
    refine Tables.committed_commit_of_not_written ?_
    by_contra hwritten
    exact hj (Option.some.inj (hlocked.symm.trans (hguarded i _ hwritten)))
  by_cases hdeactivated : ∃ organizations, e = .deactivated u organizations
  · obtain ⟨organizations, rfl⟩ := hdeactivated
    obtain ⟨-, account, -, -, -, horganizations, hcovered, -⟩ := hdone
    -- the account does not manage an organization that another process holds
    have hnone : ¬ Rows.IsManager s.tables.committed u o := by
      intro hmanager
      rcases hcovered o hmanager with hmem | ⟨hfree, -⟩
      · exact hj (Option.some.inj (hlocked.symm.trans (horganizations o hmem)))
      · exact hfree j hlocked
    constructor
    · rintro ⟨hmanager, -⟩
      exact absurd ((isManager_congr hmember).mp hmanager) hnone
    · rintro ⟨hmanager, -⟩
      exact absurd hmanager hnone
  · exact effective_congr hmember (isActiveAccount_commit hdone (not_exists.mp hdeactivated))

end Managers

omit [DecidableEq υ] [DecidableEq ω] in
theorem otherManager_congr {c c' : Rows υ ω} (h : ∀ u, Effective c' u o ↔ Effective c u o) (u : υ) :
    OtherManager c' u o ↔ OtherManager c u o :=
  exists_congr fun v => and_congr_right fun _ => h v

theorem lasting_counted_managers (o : ω) (u : υ) :
    (discipline p (managerTerms (ι := ι) p)).Lasting ((managerTerms (ι := ι) p).counted o u) where
  stable := by
    intro s s' i hcounted hsteady
    have hsame := hsteady.rely o hcounted.1
    refine ⟨hsteady.locked _ hcounted.1, fun heffective => ?_⟩
    exact (otherManager_congr hsame u).mpr (hcounted.2 ((hsame u).mp heffective))
  own := by
    intro s i request hready hcounted
    refine ⟨Tables.locked_exec hready hcounted.1, ?_⟩
    rw [show (s.tables.exec i request).committed = s.tables.committed from Tables.committed_exec request]
    exact hcounted.2

theorem managerTerms_lawful : (managerTerms (ι := ι) p).Lawful p where
  counted := lasting_counted_managers
  count := fun hmeets hlocked hmany => ⟨hlocked, hmeets hmany⟩
  vouched := fun _ _ => Lasting.trivial
  vouch := fun _ _ => trivial
  cover := fun hmeets => hmeets
  time := fun _ => trivial

theorem manager_lawful : (discipline p (managerTerms (ι := ι) p)).Lawful where
  relyQuiet := fun h o _ u => by rw [h]
  settled := fun _ _ hindexed hdone => indexed_commit hindexed hdone
  rely := fun _ hguarded _ hdone hj _ hlocked u => effective_commit hguarded hdone hj hlocked u

theorem manager_within (hs : (discipline p (managerTerms p)).Sound s task)
    (h : (Script.program (Governs p)).Within (discipline p (managerTerms p)).MeetsTask s task s' task') :
    (discipline p (managerTerms p)).Sound s' task' ∧ KeepsManagers s.tables.committed s'.tables.committed :=
  Sound.within manager_lawful (governs_starts managerTerms_lawful trivial) (fun _ _ h => h)
    (fun _ _ _ h h' o hmanager => h' o (h o hmanager)) (fun _ _ _ hdone => keepsManagers_commit hdone) hs h

def SparesTask (p : Platform υ ω) (s : World ι υ ω) (i : ι) (task : Option (Command υ ω)) : Prop :=
  ∀ script, task = some script → Spares p s i script

/-- In every run there stays an administrator, and in every run that spares the last effective managers each
organization keeps one. -/
theorem keeps_managers {start s s' : World ι υ ω} {task task' : ι → Option (Command υ ω)}
    (hwritten : ∀ i k, start.tables.written i k = none) (hindexed : Indexed start.tables.committed) :
    ((Script.program (Governs p)).Reached start s task →
      (Script.program (Governs p)).Within (fun _ _ _ => True) s task s' task' →
      KeepsAdmin s.tables.committed s'.tables.committed) ∧
    ((Script.program (Governs p)).Within (SparesTask p) start (fun _ => none) s task →
      (Script.program (Governs p)).Within (SparesTask p) s task s' task' →
      KeepsManagers s.tables.committed s'.tables.committed) := by
  constructor
  · intro hreached hwithin
    have hs := (admin_within (.initial hindexed hwritten) hreached.within).1
    exact (admin_within hs hwithin).2
  · intro hreached hwithin
    have hs := (manager_within (.initial hindexed hwritten) hreached).1
    exact (manager_within hs hwithin).2

/-! ### Two managers and an administrator -/

def managedPlatform : Platform ℕ ℕ where
  accounts := {0, 1, 2}
  organizations := [0]
  trialFullAccess := false
  invitationTtl := 604800

def managedRows : Rows ℕ ℕ
  | .account u =>
    if u = 0 then some (⟨.user, true, "first@example.vn", true⟩ : Account)
    else if u = 1 then some (⟨.user, true, "second@example.vn", true⟩ : Account)
    else if u = 2 then some (⟨.superAdmin, true, "admin@example.vn", true⟩ : Account) else none
  | .member u o =>
    if o = 0 ∧ (u = 0 ∨ u = 1) then some (⟨.manager, true⟩ : Member)
    else if o = 0 ∧ u = 2 then some (⟨.employee, true⟩ : Member) else none
  | .organization o => if o = 0 then some (⟨true, some 0⟩ : Organization ℕ) else none
  | _ => none

def managedWorld : World Bool ℕ ℕ where
  tables := { committed := managedRows, locked := fun _ => none, written := fun _ _ => none }
  clock := 10
  history := []

theorem managedRows_indexed : Indexed managedRows := by
  intro o emailNorm id
  constructor
  · intro h
    cases h
  · rintro ⟨_, h, -⟩
    cases h

theorem managedRows_manager {u o : ℕ} {m : Member} (hm : managedRows.member u o = some m) (hrole : m.vaiTro = .manager) :
    o = 0 ∧ (u = 0 ∨ u = 1) := by
  simp only [Rows.member, managedRows] at hm
  split at hm
  · assumption
  split at hm
  · cases hm
    cases hrole
  · cases hm

def administrator : Session ℕ := ⟨2, true, some .superAdmin, true⟩

def deactivatedRows : Rows ℕ ℕ :=
  (Request.write (.modify (.account 0) fun account : Account => { account with active := false })).seen managedRows

def removedRows : Rows ℕ ℕ :=
  (Request.write (.modify (.member 1 0) fun m : Member => { m with active := false })).seen deactivatedRows

theorem removedRows_member {u : ℕ} (h : removedRows.IsManager u 0) : u = 0 := by
  obtain ⟨m, hm, hrole, hactive⟩ := h
  by_cases hu : u = 1
  · subst hu
    cases hm
    cases hactive
  · have hrow : removedRows.member u 0 = managedRows (.member u 0) := by
      simp only [Rows.member, removedRows, deactivatedRows, Request.seen, Statement.modify, Key.member.injEq,
        Ne.symm hu, false_and, dite_false, Option.getD_none, reduceCtorEq]
      rfl
    exact (managedRows_manager (hrow.symm.trans hm) hrole).2.resolve_right hu

theorem removed_reached : ∃ s : World Bool ℕ ℕ,
    (Script.program (Governs managedPlatform)).Reached managedWorld s (fun _ => none) ∧
    s.tables.committed = removedRows := by
  let scripts := [deleteUser managedPlatform ⟨administrator, 0⟩,
    removeUserFromOrg managedPlatform ⟨administrator, 0, 1, true⟩]
  have hstarts : ∀ script ∈ scripts, Governs managedPlatform 10 script := by
    simp only [scripts, List.mem_cons, List.not_mem_nil, or_false, forall_eq_or_imp, forall_eq]
    exact ⟨.deleteUser 10 _, .consents (.removeUserFromOrg 10 _)⟩
  have hserial : Script.serial 10 scripts managedRows = some ([.deactivated 0 [0], .removed 1 0], removedRows) := rfl
  obtain ⟨s, hreached, hcommitted, -⟩ := reached_serial (s := managedWorld) ⟨fun _ => rfl, fun _ _ => rfl⟩ true .start
    hstarts hserial
  exact ⟨s, hreached, hcommitted⟩

/-- The administrator deactivates the first manager and removes the second: the account of the first is not
looked at, and no effective manager is left. -/
theorem locked_out : ∃ s : World Bool ℕ ℕ, (Script.program (Governs managedPlatform)).Reached managedWorld s (fun _ => none) ∧
    HasManager managedWorld.tables.committed 0 ∧ ¬ HasManager s.tables.committed 0 := by
  obtain ⟨s, hreached, hcommitted⟩ := removed_reached
  refine ⟨s, hreached, ⟨0, by decide, by decide⟩, ?_⟩
  rw [hcommitted]
  rintro ⟨u, hmanager, ⟨account, haccount, hactive⟩⟩
  obtain rfl := removedRows_member hmanager
  cases haccount
  cases hactive

theorem spares_removal (s : World Bool ℕ ℕ) (name : Option (Name ℕ ℕ)) (request : Rows ℕ ℕ → ℕ → Request Row)
    (next : Rows ℕ ℕ → ℕ → Command ℕ ℕ) (h : s.tables.committed = managedRows) :
    SparesTask managedPlatform s true (some (.statement name request next)) := by
  rintro _ ⟨⟩
  cases name with
  | none => trivial
  | some name =>
    obtain ⟨u, o⟩ := name
    rintro -
    rw [h]
    rintro ⟨⟨m, hm, hrole, -⟩, -⟩
    obtain ⟨rfl, rfl | rfl⟩ := managedRows_manager hm hrole
    · exact ⟨1, by decide, by decide, by decide⟩
    · exact ⟨0, by decide, by decide, by decide⟩

/-- The administrator removes the second manager, and the first is left. -/
theorem keeps_managers_removal : ∃ s : World Bool ℕ ℕ, (Script.program (Governs managedPlatform)).Within
      (SparesTask managedPlatform) managedWorld (fun _ => none) s (fun _ => none) ∧
    ¬ Rows.IsActiveMember s.tables.committed 1 0 ∧ KeepsManagers managedRows s.tables.committed ∧
    HasAdmin s.tables.committed := by
  have hremoval : Governs managedPlatform 10 (removeUserFromOrg managedPlatform ⟨administrator, 0, 1, true⟩) :=
    .consents (.removeUserFromOrg 10 ⟨administrator, 0, 1, true⟩)
  have hcommit : ∀ s : World Bool ℕ ℕ, SparesTask managedPlatform s true (some (.commit (.removed 1 0))) := by
    rintro s _ ⟨⟩
    trivial
  obtain ⟨s, hrun, -, hcommitted, -⟩ := within_alone (i := true) (s := managedWorld) spares_removal hcommit
    ⟨fun _ => rfl, fun _ _ => rfl⟩ .refl hremoval rfl
  have hmanagers := (keeps_managers (fun _ _ => rfl) managedRows_indexed).2 .refl hrun
  have hadmin := (keeps_managers (fun _ _ => rfl) managedRows_indexed).1 .start (hrun.mono fun _ _ _ _ _ => trivial)
  refine ⟨s, hrun, ?_, hmanagers, hadmin ⟨2, by decide⟩⟩
  rw [hcommitted]
  rintro ⟨m, hm, hactive⟩
  cases hm
  cases hactive

end Bidding.Members
