import Bidding.Members.Effects

/-!
# What a commit does to a membership and to an account

A commit leaves a membership as it is, or the member leaves, gets another role or joins; and it leaves an account as it
is, or gives it another role or deactivates it. So what every commit keeps is shown by four cases.
-/

namespace Bidding.Members

open Foundations Discipline List

variable {ι υ ω : Type} [DecidableEq ι] [DecidableEq υ] [DecidableEq ω]

/-- Nothing else is changed that the managers of the organization depend on. -/
structure OnlyMember (s : World ι υ ω) (e : Event υ ω) (c' : Rows υ ω) (u : υ) (o : ω) : Prop where
  others : ∀ v, v ≠ u → c'.member v o = Rows.member s.tables.committed v o
  accounts : ∀ v organizations, e ≠ .deactivated v organizations

/-- How a commit changes a membership, with what is known before. -/
inductive MemberChange (terms : Terms ι υ ω) (s : World ι υ ω) (i : ι) (e : Event υ ω) (c' : Rows υ ω) (u : υ)
    (o : ω) : Prop where
  | kept : c'.member u o = Rows.member s.tables.committed u o → MemberChange terms s i e c' u o
  | left (m : Member) : Rows.member s.tables.committed u o = some m → c'.member u o = some { m with active := false } →
      (m.vaiTro = .manager → terms.counted o u s i) → OnlyMember s e c' u o → MemberChange terms s i e c' u o
  | role (m : Member) (role : MemberRole) : Rows.member s.tables.committed u o = some m →
      c'.member u o = some { m with vaiTro := role } →
      (m.vaiTro = .manager → role ≠ .manager → terms.counted o u s i) → OnlyMember s e c' u o → MemberChange terms s i e c' u o
  | joined : ¬ Rows.IsActiveMember s.tables.committed u o → c'.member u o = some ⟨.employee, true⟩ →
      ((∃ actor, e = .added actor u o) ∨ ∃ id, e = .accepted id u o true) → MemberChange terms s i e c' u o

/-- How a commit changes an account, with what is known before. -/
inductive AccountChange (terms : Terms ι υ ω) (s : World ι υ ω) (e : Event υ ω) (c' : Rows υ ω) (u : υ) : Prop where
  | kept : c'.account u = Rows.account s.tables.committed u → AccountChange terms s e c' u
  | role (account : Account) (role : PlatformRole) : terms.accounts →
      Rows.account s.tables.committed u = some account → c'.account u = some { account with vaiTro := role } →
      (Rows.IsAdmin s.tables.committed u → role ≠ .superAdmin → ∃ v, v ≠ u ∧ Rows.IsAdmin s.tables.committed v) →
      (∀ v, v ≠ u → c'.account v = Rows.account s.tables.committed v) → AccountChange terms s e c' u
  | deactivated (account : Account) (organizations : List ω) : terms.accounts →
      Rows.account s.tables.committed u = some account → c'.account u = some { account with active := false } →
      e = .deactivated u organizations → (Rows.IsAdmin s.tables.committed u → ∃ v, v ≠ u ∧ Rows.IsAdmin s.tables.committed v) →
      (∀ v, v ≠ u → c'.account v = Rows.account s.tables.committed v) → AccountChange terms s e c' u

variable {p : Platform υ ω} {terms : Terms ι υ ω} {s : World ι υ ω} {i : ι} {e : Event υ ω}

omit [DecidableEq ω] in
theorem memberChange_of_done (hdone : Done p terms s i e) (u : υ) (o : ω) :
    MemberChange terms s i e (s.tables.commit i).committed u o := by
  have hkept := fun k => @kept_of_done _ _ _ _ _ p terms s i e hdone k
  by_cases hwrites : e.Writes (.member u o)
  · cases e with
    | removed v o' =>
      cases hwrites
      obtain ⟨m, hm, hcounted, hwrote⟩ := hdone
      refine .left m hm (hwrote.sees.1 _ mem_cons_self) hcounted ⟨fun w hw => ?_, by simp⟩
      exact hkept _ (by simpa [Event.Writes] using hw)
    | profileUpdated v o' =>
      cases hwrites
      obtain ⟨m, hm, hwrote⟩ := hdone
      exact .kept ((hwrote.sees.1 ⟨.member u o, some m⟩ mem_cons_self).trans hm.symm)
    | added actor v o' =>
      cases hwrites
      obtain ⟨hinactive, -, -, hwrote⟩ := hdone
      exact .joined hinactive (hwrote.sees.1 (activeEmployee u o) mem_cons_self) (.inl ⟨actor, rfl⟩)
    | accepted id v o' activated =>
      obtain ⟨rfl, rfl⟩ : u = v ∧ o = o' := by simpa [Event.Writes] using hwrites
      obtain ⟨invitation, now, -, -, -, -, hjoins, hwrote⟩ := hdone
      cases activated with
      | true =>
        refine .joined (hjoins rfl).1 (hwrote.sees.1 (activeEmployee u o) ?_) (.inr ⟨id, rfl⟩)
        exact mem_append_right _ mem_cons_self
      | false => exact .kept (hwrote.sees.2 _ (by simp [closedRows, joinedRows]))
    | organizationRole v o' role =>
      cases hwrites
      obtain ⟨m, hm, hcounted, hwrote⟩ := hdone
      refine .role m role hm (hwrote.sees.1 _ mem_cons_self) hcounted ⟨fun w hw => ?_, by simp⟩
      exact hkept _ (by simpa [Event.Writes] using hw)
    | settings v role o' organizationRole =>
      obtain ⟨rfl, rfl⟩ : u = v ∧ o = o' := by simpa [Event.Writes] using hwrites
      obtain ⟨-, account, m, subscriptionRows, -, hm, -, hcounted, hkeys, hwrote⟩ := hdone
      have hrow := hwrote.sees.1 ⟨.member u o, some { m with vaiTro := organizationRole }⟩
        (mem_append_right _ mem_cons_self)
      refine .role m organizationRole hm hrow hcounted ⟨fun w hw => ?_, by simp⟩
      exact hkept _ (by simpa [Event.Writes] using hw)
    | _ => simp [Event.Writes] at hwrites
  · exact .kept (hkept _ hwrites)

omit [DecidableEq ω] in
theorem accountChange_of_done (hdone : Done p terms s i e) (u : υ) :
    AccountChange terms s e (s.tables.commit i).committed u := by
  have hkept := fun k => @kept_of_done _ _ _ _ _ p terms s i e hdone k
  by_cases hwrites : e.Writes (.account u)
  · cases e with
    | platformRole v role =>
      cases hwrites
      obtain ⟨haccounts, account, haccount, hother, hwrote⟩ := hdone
      refine .role account role haccounts haccount (hwrote.sees.1 _ mem_cons_self) hother fun w hw => ?_
      exact hkept _ (by simpa [Event.Writes] using hw)
    | settings v role o organizationRole =>
      obtain rfl : u = v := by simpa [Event.Writes] using hwrites
      obtain ⟨haccounts, account, m, subscriptionRows, haccount, -, hother, -, hkeys, hwrote⟩ := hdone
      refine .role account role haccounts haccount ?_ hother fun w hw => hkept _ (by simpa [Event.Writes] using hw)
      exact hwrote.sees.1 ⟨.account u, some { account with vaiTro := role }⟩ (by simp)
    | deactivated v organizations =>
      cases hwrites
      obtain ⟨haccounts, account, haccount, hother, -, -, -, hwrote⟩ := hdone
      refine .deactivated account organizations haccounts haccount (hwrote.sees.1 _ mem_cons_self) rfl hother
        fun w hw => ?_
      exact hkept _ (by simpa [Event.Writes] using hw)
    | _ => simp [Event.Writes] at hwrites
  · exact .kept (hkept _ hwrites)

end Bidding.Members
