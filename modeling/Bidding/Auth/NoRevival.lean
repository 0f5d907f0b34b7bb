import Bidding.Auth.Processes

/-!
# Sessions and recovery links are not revived

A touch asks whether its session is revoked, not whether it is over: a session found over is not accepted again where no
touch is that late. The rest holds in every run.
-/

namespace Bidding.Auth

open Foundations List Option Tables

variable {ι : Type}

section Steps

variable {first : String} {w : World ι} {i j : ι} {e : Option (Event ι)} {user : SessionUser} {now : ℕ} {w' : World ι}

theorem latestLink_append {new : List (Event ι)} (h : ∀ e ∈ new, Event.isLink e = false) (history : List (Event ι)) :
    latestLink (new ++ history) = latestLink history := by
  induction new with
  | nil => rfl
  | cons e new ih =>
    have hnew := ih fun x hx => h x (mem_cons_of_mem e hx)
    cases e with
    | issued token => cases h (.issued token) mem_cons_self
    | redeemed token passwordHash => cases h (.redeemed token passwordHash) mem_cons_self
    | _ => exact hnew

theorem sessionInvalidReason_eq_none (h : sessionInvalidReason user now = none) : ¬ user.session.Dead now := by
  unfold sessionInvalidReason at h
  split_ifs at h with hactive hrevoked habsolute hidle
  rintro (hdead | hdead | hdead)
  · exact hrevoked hdead
  · exact habsolute hdead
  · exact hidle hdead

theorem revokedAt_eq_none (h : sessionInvalidReason user now = none) : user.session.revokedAt = none := by
  by_contra hrevoked
  exact sessionInvalidReason_eq_none h (.inl (isSome_iff_ne_none.mpr hrevoked))

theorem dead_of_sessionInvalidReason {row : SessionRow} (h : sessionInvalidReason ⟨true, row⟩ now ≠ none) : row.Dead now := by
  by_contra hdead
  apply h
  have hrevoked : ¬ row.revokedAt.isSome = true := fun hr => hdead (.inl hr)
  have habsolute : ¬ row.absoluteExpiresAt ≤ now := fun hr => hdead (.inr (.inl hr))
  have hidle : ¬ row.idleExpiresAt ≤ now := fun hr => hdead (.inr (.inr hr))
  simp [sessionInvalidReason, hrevoked, habsolute, hidle]

theorem Frame.outside (htables : w'.tables = w.tables) (hclock : w.clock ≤ w'.clock)
    (new : List (Event ι)) (hnew : w'.history = new ++ w.history) (hlink : ∀ e ∈ new, Event.isLink e = false)
    (hloaded : ∀ t, .loaded i t ∉ new) : Frame w w' i where
  written := fun k => by rw [htables]
  locked := fun k hk => by rw [htables]; exact hk
  held := fun k _ => by rw [htables]
  carried := fun token r hr => ⟨r, by rw [htables]; exact hr, .refl r⟩
  sessions := fun _ token hnone => by rw [htables]; exact hnone
  tokens := fun _ token r hr => .inr (by rw [← htables]; exact hr)
  links := fun _ => by rw [hnew, latestLink_append hlink]
  history := ⟨new, hnew, hloaded⟩
  clock := hclock

variable [DecidableEq ι] {t : Task} {x : Event ι} {c : ℕ}

theorem Frame.exec {request : Request Row} (t' : Task) (hne : i ≠ j) (hready : w.tables.Ready j request) :
    Frame w (w.goOn (w.tables.exec j request) j t' none) i where
  written := fun k => written_exec_of_ne request hne k
  locked := fun k hk => locked_exec hready hk
  held := fun k _ => by
    show (w.tables.exec j request).committed k = _
    rw [committed_exec]
  carried := fun token r hr => ⟨r, by
    show (w.tables.exec j request).committed (.session token) = _
    rw [committed_exec, hr], .refl r⟩
  sessions := fun _ token hnone => by
    show (w.tables.exec j request).committed (.session token) = _
    rw [committed_exec, hnone]
  tokens := fun _ token r hr => by
    change (w.tables.exec j request).committed (.token token) = some r at hr
    rw [committed_exec] at hr
    exact .inr hr
  links := fun _ => rfl
  history := ⟨[], rfl, fun _ => not_mem_nil⟩
  clock := Nat.le_refl _

theorem Frame.abort (t' : Task) (hne : i ≠ j) : Frame w (w.goOn (w.tables.abort j) j t' none) i where
  written := fun k => written_abort_of_ne hne k
  locked := fun _ hk => release_of_ne hne hk
  held := fun _ _ => rfl
  carried := fun _ r hr => ⟨r, hr, .refl r⟩
  sessions := fun _ _ hnone => hnone
  tokens := fun _ _ _ hr => .inr hr
  links := fun _ => rfl
  history := ⟨[], rfl, fun _ => not_mem_nil⟩
  clock := Nat.le_refl _

theorem locals_goOn (hl : w.tables.Locking) (h : ∀ i, Local w i (w.task i)) {tables : Tables ι Row}
    (hframe : ∀ i, i ≠ j → Frame w (w.goOn tables j t e) i) (hself : Local (w.goOn tables j t e) j t) :
    ∀ i, Local (w.goOn tables j t e) i ((w.goOn tables j t e).task i) := by
  intro i
  by_cases hij : i = j
  · subst hij
    have htask : (w.goOn tables i t e).task i = t := Function.update_self _ _ _
    rw [htask]
    exact hself
  · have htask : (w.goOn tables j t e).task i = w.task i := Function.update_of_ne hij _ _
    rw [htask]
    exact (h i).frame hl (hframe i hij)

/-! ## What is committed -/

/-- No touch is committed after the idle time of its session, and no check that has loaded a session finds it
idle for too long when the stored row is not. -/
def Timely (w : World ι) : Option (Event ι) → Prop
  | some (.extended token) => ∀ r, w.tables.committed (.session token) = some r → w.clock < r.idleExpiresAt
  | some (.found token .sessionIdleExpired) => ∀ r, w.tables.committed (.session token) = some r →
      sessionInvalidReason ⟨true, r⟩ w.clock ≠ none
  | _ => True

omit [DecidableEq ι] in
theorem Settled.of_committed (h : Settled first w) (hcommitted : w'.tables.committed = w.tables.committed)
    (hhistory : w'.history = w.history) (hclock : w.clock ≤ w'.clock) : Settled first w' where
  account := by
    rw [hcommitted, hhistory]
    exact h.account
  one := by
    rw [hcommitted]
    exact h.one
  opened := by
    rw [hcommitted, hhistory]
    exact h.opened
  absent := by
    rw [hcommitted, hhistory]
    exact h.absent
  links := by
    rw [hcommitted, hhistory]
    exact h.links
  dead := by
    rw [hcommitted, hhistory]
    intro token hfound
    obtain ⟨r, hr, hdead⟩ := h.dead token hfound
    exact ⟨r, hr, hdead.mono hclock⟩
  history := by
    rw [hhistory]
    exact h.history

def Event.ofCheck : Event ι → Bool
  | .loaded _ _ => true
  | .found _ _ => true
  | .accepted _ _ => true
  | _ => false

theorem Settled.check (h : Settled first w) (hx : x.ofCheck = true) (hjustified : x.Justified first w.history)
    (hdead : ∀ token reason, x = .found token reason → reason ≠ .accountInactive →
      ∃ r, w.tables.committed (.session token) = some r ∧ r.Dead w.clock) (t : Task) :
    Settled first (w.goOn w.tables j t (some x)) where
  account := by
    obtain ⟨account, haccount, hhead⟩ := h.account
    refine ⟨account, haccount, ?_⟩
    cases x <;> first | exact hhead | cases hx
  one := h.one
  opened := by
    intro token r hr hrevoked
    obtain ⟨y, p, hopened⟩ := h.opened token r hr hrevoked
    refine ⟨y, p, ?_⟩
    cases x <;> first | exact mem_cons_of_mem _ hopened | cases hx
  absent := by
    intro token hnone y p hopened
    rcases mem_cons.mp hopened with rfl | hopened
    · cases hx
    · exact h.absent token hnone y p hopened
  links := by
    intro token r hr hunused
    have hlatest := h.links token r hr hunused
    cases x <;> first | exact hlatest | cases hx
  dead := by
    rintro token ⟨reason, hreason, hfound⟩
    rcases mem_cons.mp hfound with heq | hfound
    · exact hdead token reason heq.symm hreason
    · exact h.dead token ⟨reason, hreason, hfound⟩
  history := ⟨hjustified, h.history⟩

omit [DecidableEq ι] in
theorem foundOver_cons {token : String} {history : List (Event ι)} (hx : x.ofCheck = false)
    (h : FoundOver token (x :: history)) : FoundOver token history := by
  obtain ⟨reason, hreason, hfound⟩ := h
  rcases mem_cons.mp hfound with rfl | hfound
  · cases hx
  · exact ⟨reason, hreason, hfound⟩

omit [DecidableEq ι] in
theorem Local.dead_view (h : Local w i t) {token : String} {r : SessionRow}
    (hr : w.tables.committed (.session token) = some r) (hdead : r.Dead w.clock)
    (htimely : t.extends token → w.clock < r.idleExpiresAt) :
    ∃ r', w.tables.view i (.session token) = some r' ∧ r'.Dead w.clock := by
  obtain ⟨r', hr', hcarried⟩ := h.exists_view hr
  refine ⟨r', hr', ?_⟩
  rcases hdead with hrevoked | habsolute | hidle
  · exact .inl (hcarried.2 hrevoked)
  · exact .inr (.inl (hcarried.1 ▸ habsolute))
  rcases h.view_session hr' with ⟨r₀, hr₀, -, hkept | hextends⟩ | ⟨l, c, rfl, rfl⟩
  · obtain rfl := mem_unique hr hr₀
    exact .inr (.inr (hkept ▸ hidle))
  · exact absurd hidle (Nat.not_le_of_lt (htimely hextends))
  · rw [h.phase.2.2.1] at hr
    cases hr

omit [DecidableEq ι] in
theorem Local.unrevoked_of_view (h : Local w i t) (hopens : ∀ l c, t ≠ .login .inserted l c) {token : String}
    {r' : SessionRow} (hr' : w.tables.view i (.session token) = some r') (hnone : r'.revokedAt = none) :
    ∃ r, w.tables.committed (.session token) = some r ∧ r.revokedAt = none := by
  rcases h.view_session hr' with ⟨r, hr, hcarried, -⟩ | ⟨l, c, ht, -⟩
  · refine ⟨r, hr, ?_⟩
    by_contra hrevoked
    have hstill := hcarried.2 (isSome_iff_ne_none.mpr hrevoked)
    rw [hnone] at hstill
    cases hstill
  · exact absurd ht (hopens l c)

section

variable (h : Settled first w)
include h

section

variable (hlocal : Local w i t)
include hlocal

theorem Settled.absent_commit {token : String}
    (hnone : (w.tables.commit i).committed (.session token) = none) (x p : Option String) : .opened token x p ∉ w.history := by
  have hbefore : w.tables.committed (.session token) = none := by
    by_contra hsome
    obtain ⟨r, hr⟩ := ne_none_iff_exists'.mp hsome
    obtain ⟨r', hr', -⟩ := hlocal.exists_view hr
    rw [← committed_commit] at hr'
    exact absurd (hnone.symm.trans hr') (by simp)
  exact h.absent token hbefore x p

theorem Settled.commit_other {t' : Task} (hfinish : Finishes t e t')
    (hholds : t.holdsAccount = false) (htimely : Timely w e) (hfresh : ∀ x, e = some x → x.Fresh first w.history) :
    Settled first (w.goOn (w.tables.commit i) i t' e) := by
  have hevent : e = none ∨ ∃ token, e = some (.extended token) ∧ t.extends token := by
    cases hfinish with
    | login l c => cases hholds
    | link l c => cases hholds
    | redeem r c => cases hholds
    | extended token user timeout c => exact .inr ⟨token, rfl, rfl⟩
    | _ => exact .inl rfl
  have hextends : ∀ token, t.extends token → e = some (.extended token) := by
    intro token ht
    cases hfinish with
    | extended token' user timeout c => exact congrArg (fun token => some (Event.extended token)) ht
    | _ => exact ht.elim
  have hopens : ∀ l c, t ≠ .login .inserted l c := by
    rintro l c rfl
    cases hholds
  have hsince : ∀ x, x ∈ sinceRedeemed w.history → x ∈ sinceRedeemed (e.toList ++ w.history) := by
    intro x hx
    rcases hevent with rfl | ⟨token, rfl, -⟩
    · exact hx
    · exact mem_cons_of_mem _ hx
  refine ⟨?_, ?_, ?_, ?_, ?_, ?_, ?_⟩
  · obtain ⟨account, haccount, hhead⟩ := h.account
    refine ⟨account, ?_, ?_⟩
    · show w.tables.view i .account = some account
      rw [hlocal.account, haccount, passwordHash_eq_none hholds]
      rfl
    · rcases hevent with rfl | ⟨token, rfl, -⟩ <;> exact hhead
  · intro token token' r r' hr hr' hnone hnone'
    obtain ⟨r₀, hr₀, hnone₀⟩ := hlocal.unrevoked_of_view hopens hr hnone
    obtain ⟨r₀', hr₀', hnone₀'⟩ := hlocal.unrevoked_of_view hopens hr' hnone'
    exact h.one token token' r₀ r₀' hr₀ hr₀' hnone₀ hnone₀'
  · intro token r hr hnone
    obtain ⟨r₀, hr₀, hnone₀⟩ := hlocal.unrevoked_of_view hopens hr hnone
    obtain ⟨x, p, hopened⟩ := h.opened token r₀ hr₀ hnone₀
    exact ⟨x, p, hsince _ hopened⟩
  · intro token hnone x p hopened
    apply h.absent_commit hlocal hnone x p
    rcases hevent with rfl | ⟨token', rfl, -⟩
    · exact hopened
    · exact mem_of_ne_of_mem (by simp) hopened
  · intro token r hr hunused
    show latestLink (e.toList ++ w.history) = some token
    rw [hfinish.latestLink hholds]
    rcases hlocal.view_token hr with hused | hcommitted | ⟨l, c, rfl, -⟩
    · exact absurd hunused hused
    · exact h.links token r hcommitted hunused
    · cases hholds
  · intro token hfound
    have hbefore : FoundOver token w.history := by
      rcases hevent with rfl | ⟨token', rfl, -⟩
      · exact hfound
      · exact foundOver_cons rfl hfound
    obtain ⟨r, hr, hdead⟩ := h.dead token hbefore
    apply hlocal.dead_view hr hdead
    intro ht
    rw [hextends token ht] at htimely
    exact htimely r hr
  · apply h.history.toList_append
    rintro x rfl
    refine ⟨hfresh x rfl, ?_⟩
    rcases hevent with hevent | ⟨token, hevent, -⟩
    · cases hevent
    · cases hevent
      trivial

theorem Settled.dead_commit (hextends : ∀ token, ¬ t.extends token) (hx : x.ofCheck = false) (token : String)
    (hfound : FoundOver token (x :: w.history)) :
    ∃ r, (w.tables.commit i).committed (.session token) = some r ∧ r.Dead w.clock := by
  obtain ⟨r, hr, hdead⟩ := h.dead token (foundOver_cons hx hfound)
  exact hlocal.dead_view hr hdead fun ht => absurd ht (hextends token)

theorem Settled.account_commit
    (hpassword : x.password = t.passwordHash) : ∃ account, (w.tables.commit i).committed .account = some account ∧
      (passwords first (x :: w.history)).head? = some account.matKhau := by
  obtain ⟨account, haccount, hhead⟩ := h.account
  refine ⟨{ account with matKhau := t.passwordHash.getD account.matKhau }, ?_, ?_⟩
  · rw [committed_commit, hlocal.account, haccount]
    rfl
  · rw [passwords, filterMap_cons, hpassword]
    cases t.passwordHash with
    | none => exact hhead
    | some passwordHash => rfl

end

theorem Settled.commit_login {l : Login} (hlocal : Local w i (.login .inserted l c))
    (hfresh : (Event.opened l.token l.expectedPasswordHash l.replacementPasswordHash).Fresh first w.history) :
    Settled first (w.goOn (w.tables.commit i) i .idle
      (some (.opened l.token l.expectedPasswordHash l.replacementPasswordHash))) := by
  obtain ⟨⟨account, haccount, hadmits⟩, hrevoked, habsent, row, hrow⟩ := hlocal.phase
  have hunrevoked : ∀ token r, w.tables.view i (.session token) = some r → r.revokedAt = none → token = l.token := by
    intro token r hr hnone
    rcases hrevoked token r hr with htoken | hstill
    · exact (some.inj htoken).symm
    · rw [hnone] at hstill
      cases hstill
  refine ⟨h.account_commit hlocal rfl, ?_, ?_, ?_, ?_, ?_, ⟨⟨hfresh, h.absent l.token habsent, ?_⟩, h.history⟩⟩
  · intro token token' r r' hr hr' hnone hnone'
    exact (hunrevoked token r hr hnone).trans (hunrevoked token' r' hr' hnone').symm
  · intro token r hr hnone
    rw [hunrevoked token r hr hnone]
    exact ⟨_, _, mem_cons_self⟩
  · intro token hnone x p hopened
    rcases mem_cons.mp hopened with heq | hopened
    · obtain rfl : token = l.token := by injection heq
      change w.tables.view i (.session l.token) = none at hnone
      rw [view, hrow] at hnone
      cases hnone
    · exact h.absent_commit hlocal hnone x p hopened
  · intro token r hr hunused
    rcases hlocal.view_token hr with hused | hcommitted | ⟨l', c', ht, -⟩
    · exact absurd hunused hused
    · exact h.links token r hcommitted hunused
    · cases ht
  · exact h.dead_commit hlocal (fun token => id) rfl
  · intro passwordHash hexpected
    obtain ⟨committed, hcommitted, hhead⟩ := h.account
    obtain rfl := mem_unique haccount hcommitted
    simp only [Login.admits, hexpected, all_some, Bool.and_eq_true, decide_eq_true_eq] at hadmits
    exact hhead.trans (congrArg some hadmits.2)

theorem Settled.commit_link {l : Link} (hlocal : Local w i (.link .inserted l c))
    (hfresh : (Event.issued l.token).Fresh first w.history) :
    Settled first (w.goOn (w.tables.commit i) i .idle (some (.issued l.token))) := by
  have hopens : ∀ l' c', Task.link .inserted l c ≠ .login .inserted l' c' := fun _ _ ht => nomatch ht
  refine ⟨h.account_commit hlocal rfl, ?_, ?_, ?_, ?_, ?_, ⟨⟨hfresh, trivial⟩, h.history⟩⟩
  · intro token token' r r' hr hr' hnone hnone'
    obtain ⟨r₀, hr₀, hnone₀⟩ := hlocal.unrevoked_of_view hopens hr hnone
    obtain ⟨r₀', hr₀', hnone₀'⟩ := hlocal.unrevoked_of_view hopens hr' hnone'
    exact h.one token token' r₀ r₀' hr₀ hr₀' hnone₀ hnone₀'
  · intro token r hr hnone
    obtain ⟨r₀, hr₀, hnone₀⟩ := hlocal.unrevoked_of_view hopens hr hnone
    obtain ⟨x, p, hopened⟩ := h.opened token r₀ hr₀ hnone₀
    exact ⟨x, p, mem_cons_of_mem _ hopened⟩
  · intro token hnone x p hopened
    rcases mem_cons.mp hopened with heq | hopened
    · cases heq
    · exact h.absent_commit hlocal hnone x p hopened
  · intro token r hr hunused
    rcases hlocal.phase token r hr with htoken | hused
    · exact htoken
    · exact absurd hunused hused
  · exact h.dead_commit hlocal (fun token => id) rfl

theorem Settled.commit_redeem {r : Redemption} (hlocal : Local w i (.redeem .invalidated r c))
    (hfresh : (Event.redeemed r.token r.passwordHash).Fresh first w.history) :
    Settled first (w.goOn (w.tables.commit i) i .idle (some (.redeemed r.token r.passwordHash))) := by
  obtain ⟨hlatest, hrevoked, hused⟩ := hlocal.phase
  have hnone : ∀ token row, w.tables.view i (.session token) = some row → row.revokedAt ≠ none := by
    intro token row hrow
    exact isSome_iff_ne_none.mp ((hrevoked token row hrow).resolve_left (by simp))
  refine ⟨h.account_commit hlocal rfl, ?_, ?_, ?_, ?_, ?_, ⟨⟨hfresh, hlatest⟩, h.history⟩⟩
  · exact fun token token' row row' hrow _ hopen _ => absurd hopen (hnone token row hrow)
  · exact fun token row hrow hopen => absurd hopen (hnone token row hrow)
  · intro token hnone x p hopened
    rcases mem_cons.mp hopened with heq | hopened
    · cases heq
    · exact h.absent_commit hlocal hnone x p hopened
  · intro token row hrow hunused
    exact absurd hunused ((hused token row hrow).resolve_left (by simp))
  · exact h.dead_commit hlocal (fun token => id) rfl

/-- What holds of the committed rows holds after the commit of any task that ends in time. -/
theorem Settled.commit {t' : Task} (hlocal : Local w i t) (hfinish : Finishes t e t')
    (htimely : Timely w e) (hfresh : ∀ x, e = some x → x.Fresh first w.history) :
    Settled first (w.goOn (w.tables.commit i) i t' e) := by
  cases hfinish with
  | login l c => exact h.commit_login hlocal (hfresh _ rfl)
  | link l c => exact h.commit_link hlocal (hfresh _ rfl)
  | redeem r c => exact h.commit_redeem hlocal (hfresh _ rfl)
  | cleanup c => exact h.commit_other hlocal (.cleanup c) rfl htimely hfresh
  | revoke picks c => exact h.commit_other hlocal (.revoke picks c) rfl htimely hfresh
  | extended token user timeout c => exact h.commit_other hlocal (.extended token user timeout c) rfl htimely hfresh
  | missed token user timeout c => exact h.commit_other hlocal (.missed token user timeout c) rfl htimely hfresh

end

/-! ## Runs -/

omit [DecidableEq ι] in
theorem fresh_of_ofCheck (hx : x.ofCheck = true) (history : List (Event ι)) : x.Fresh first history := by
  refine ⟨fun token heq => ?_, fun passwordHash heq => ?_⟩
  · subst heq
    cases hx
  · have hnone : x.password = none := by cases x <;> first | rfl | cases hx
    rw [hnone] at heq
    cases heq

/-- A step keeps what holds of the rows, and what every process knows. -/
theorem Sound.step {touchSeconds : ℕ} (h : Sound first w) (hstep : Step touchSeconds first w e w')
    (htimely : Timely w e) : Sound first w' := by
  cases hstep with
  | advance seconds =>
    have hclock : w.clock ≤ w.clock + seconds := Nat.le_add_right _ _
    exact ⟨h.locking, fun i => (h.processes i).frame h.locking
      (Frame.outside rfl hclock [] rfl (by simp) (by simp)), h.settled.of_committed rfl rfl hclock⟩
  | start i t hidle hstarts =>
    have hlocal := h.processes i
    rw [hidle] at hlocal
    refine ⟨h.locking, locals_goOn h.locking h.processes (fun j _ => Frame.outside rfl (Nat.le_refl _) []
      rfl (by simp) (by simp)) ?_, h.settled.of_committed rfl rfl (Nat.le_refl _)⟩
    have hnone := hlocal.resting rfl
    cases t with
    | login phase l c => cases phase <;> first | exact .ended hnone rfl trivial | exact hstarts.elim
    | link phase l c => cases phase <;> first | exact .ended hnone rfl trivial | exact hstarts.elim
    | redeem phase r c => cases phase <;> first | exact .ended hnone rfl trivial | exact hstarts.elim
    | cleanup deleted c => exact .ended hnone rfl trivial
    | revoke done picks c => exact .ended hnone rfl trivial
    | _ => exact hstarts.elim
  | statement i request t hnext hready =>
    have hself := (h.processes i).next hnext hready h.settled
    refine ⟨h.locking.exec hready, locals_goOn h.locking h.processes (fun j hj => Frame.exec t hj hready) hself, ?_⟩
    exact h.settled.of_committed (committed_exec request) rfl (Nat.le_refl _)
  | commit i _ t hfinish hfresh =>
    have hfinishes := finishes_of_finish hfinish
    exact ⟨h.locking.commit, locals_goOn h.locking h.processes
      (fun j hj => Frame.commit h.locking (h.processes i) hj hfinishes) ((h.processes i).commit hfinishes),
      h.settled.commit (h.processes i) hfinishes htimely hfresh⟩
  | abort i hcheck =>
    exact ⟨h.locking.abort, locals_goOn h.locking h.processes (fun j hj => Frame.abort _ hj)
      ((h.processes i).abort hcheck), h.settled.of_committed rfl rfl (Nat.le_refl _)⟩
  | load i token account row hidle haccount hrow =>
    have hlocal := h.processes i
    rw [hidle] at hlocal
    refine ⟨h.locking, locals_goOn h.locking h.processes (fun j hj => Frame.outside rfl
      (Nat.le_refl _) [.loaded i token] rfl (by simp [Event.isLink]) (fun t => ?_)) ?_, ?_⟩
    · simpa using fun hij => absurd hij hj
    · refine .ended (hlocal.resting rfl) rfl ⟨⟨row, hrow, .refl row⟩, [], w.history, rfl, by simp, fun hfound => ?_,
        fun hnone => h.settled.opened token row hrow hnone⟩
      obtain ⟨r, hr, hdead⟩ := h.settled.dead token hfound
      obtain rfl := mem_unique hrow hr
      exact hdead
    · exact h.settled.check (x := .loaded i token) rfl ⟨fresh_of_ofCheck rfl _, trivial⟩ (by simp) _
  | touch i token user timeout hcheck hvalid htouch =>
    have hlocal := h.processes i
    rw [hcheck] at hlocal
    refine ⟨h.locking, locals_goOn h.locking h.processes (fun j _ => Frame.outside rfl (Nat.le_refl _) []
      rfl (by simp) (by simp)) ?_, h.settled.of_committed rfl rfl (Nat.le_refl _)⟩
    obtain ⟨hrow, mid, early, hhistory, hmid, hover, hopened⟩ := hlocal.phase
    exact .ended (hlocal.resting rfl) rfl ⟨hrow, mid, early, hhistory, hmid,
      fun ho => sessionInvalidReason_eq_none hvalid (hover ho), hopened⟩
  | reject i token user reason hcheck hreason =>
    have hlocal := h.processes i
    rw [hcheck] at hlocal
    refine ⟨h.locking, locals_goOn h.locking h.processes (fun j _ => Frame.outside rfl
      (Nat.le_refl _) [.found token reason] rfl (by simp [Event.isLink]) (by simp)) (.ended (hlocal.resting rfl) rfl trivial), ?_⟩
    refine h.settled.check rfl ⟨fresh_of_ofCheck rfl _, trivial⟩ (fun token' reason' heq hne => ?_) _
    obtain ⟨rfl, rfl⟩ : token = token' ∧ reason = reason' := by simpa using heq
    obtain ⟨⟨r, hr, hcarried⟩, -⟩ := hlocal.phase
    refine ⟨r, hr, ?_⟩
    -- what the check says of the session it has loaded holds of the stored one
    unfold sessionInvalidReason at hreason
    split_ifs at hreason with hactive hrevoked habsolute hidle
    · exact absurd (some.inj hreason).symm hne
    · exact .inl (hcarried.2 hrevoked)
    · exact .inr (.inl (hcarried.1 ▸ habsolute))
    · cases hreason
      exact dead_of_sessionInvalidReason (htimely r hr)
  | accept i token user hcheck hvalid =>
    have hlocal := h.processes i
    rw [hcheck] at hlocal
    refine ⟨h.locking, locals_goOn h.locking h.processes (fun j _ => Frame.outside rfl
      (Nat.le_refl _) [.accepted i token] rfl (by simp [Event.isLink]) (by simp)) (.ended (hlocal.resting rfl) rfl trivial), ?_⟩
    obtain ⟨-, mid, early, hhistory, hmid, hover, hopened⟩ := hlocal.phase
    exact h.settled.check (x := .accepted i token) rfl ⟨fresh_of_ofCheck rfl _, mid, early, hhistory, hmid,
      fun ho => sessionInvalidReason_eq_none hvalid (hover ho), hopened (revokedAt_eq_none hvalid)⟩ (by simp) _

end Steps

section Reading

variable {first : String} {token : String} {early : List (Event ι)}

variable {mid : List (Event ι)} {link passwordHash : String}

theorem mem_of_latestLink
    (h : latestLink (mid ++ .redeemed link passwordHash :: early) = some token) : .issued token ∈ mid := by
  induction mid with
  | nil => cases h
  | cons e mid ih =>
    cases e with
    | issued token' =>
      cases h
      exact mem_cons_self
    | redeemed token' passwordHash' => cases h
    | _ => exact mem_cons_of_mem _ (ih h)

theorem exists_issued_of_latestLink {history : List (Event ι)} (h : latestLink history = some token) :
    ∃ mid early, history = mid ++ .issued token :: early ∧ ∀ e ∈ mid, e.isLink = false := by
  induction history with
  | nil => cases h
  | cons e history ih =>
    cases e with
    | issued token' =>
      cases h
      exact ⟨[], history, rfl, by simp⟩
    | redeemed token' passwordHash => cases h
    | _ =>
      obtain ⟨mid, early, rfl, hmid⟩ := ih h
      refine ⟨_ :: mid, early, rfl, fun e he => ?_⟩
      rcases mem_cons.mp he with rfl | he
      · rfl
      · exact hmid e he

theorem mem_of_sinceRedeemed {e : Event ι} (h : e ∈ sinceRedeemed (mid ++ .redeemed link passwordHash :: early)) : e ∈ mid := by
  induction mid with
  | nil => simp [sinceRedeemed, Event.isRedeemed] at h
  | cons x mid ih =>
    rw [sinceRedeemed, cons_append, takeWhile_cons] at h
    split at h
    · rcases mem_cons.mp h with rfl | h
      · exact mem_cons_self
      · exact mem_cons_of_mem _ (ih h)
    · cases h

theorem issued_not_mem (h : Each (Event.Justified first) (mid ++ .issued token :: early)) : .issued token ∉ mid := by
  intro hmem
  obtain ⟨a, b, rfl⟩ := append_of_mem hmem
  rw [append_assoc, cons_append] at h
  exact h.at.1.1 token rfl (mem_append_right b mem_cons_self)

theorem opened_unique {x p x' p' : Option String} (h : Each (Event.Justified first) (mid ++ .opened token x p :: early))
    (hmem : .opened token x' p' ∈ mid ++ .opened token x p :: early) : (.opened token x' p' : Event ι) = .opened token x p := by
  rcases mem_append.mp hmem with hmid | hmem
  · obtain ⟨a, b, rfl⟩ := append_of_mem hmid
    rw [append_assoc, cons_append] at h
    exact absurd (mem_append_right b mem_cons_self) (h.at.2.1 x p)
  · rcases mem_cons.mp hmem with heq | hearly
    · exact heq
    · exact absurd hearly (h.at.2.1 x' p')

theorem password_not_mem (h : Each (Event.Justified first) (mid ++ early))
    (hmem : passwordHash ∈ mid.filterMap Event.password) : passwordHash ∉ passwords first early := by
  obtain ⟨e, he, hpassword⟩ := mem_filterMap.mp hmem
  obtain ⟨a, b, rfl⟩ := append_of_mem he
  rw [append_assoc, cons_append] at h
  intro hold
  apply h.at.1.2 passwordHash hpassword
  rw [passwords, filterMap_append, append_assoc]
  exact mem_append_right _ hold

theorem head_password_not_mem {new : String} (h : Each (Event.Justified first) (mid ++ .redeemed link new :: early))
    (hhead : (passwords first (mid ++ .redeemed link new :: early)).head? = some passwordHash) :
    passwordHash ∉ passwords first early := by
  have hsplit : mid ++ .redeemed link new :: early = (mid ++ [.redeemed link new]) ++ early := by
    rw [append_assoc]
    rfl
  rw [hsplit] at h hhead
  apply password_not_mem h
  have hne : (mid ++ [Event.redeemed link new]).filterMap Event.password ≠ [] := by
    rw [filterMap_append]
    simp [Event.password]
  rw [passwords, filterMap_append, append_assoc, head?_append_of_ne_nil _ hne] at hhead
  exact mem_of_head? hhead

end Reading

/-! ## Sessions and links are not revived -/

/-- What must not happen to sessions and links, in the words of the history, whose latest event comes
first. -/
structure NotRevived (first : String) (w : World ι) : Prop where
  /-- at most one session is not revoked -/
  one : ∀ token token' r r', w.tables.committed (.session token) = some r →
    w.tables.committed (.session token') = some r' → r.revokedAt = none → r'.revokedAt = none → token = token'
  /-- a session that was found revoked or over is accepted by no check that begins later -/
  ended : ∀ i token later mid early, w.history = later ++ .accepted i token :: mid ++ .loaded i token :: early →
    (∀ t, .loaded i t ∉ mid) → ¬ FoundOver token early
  /-- a link is redeemed at most once -/
  once : ∀ token later mid early new new', w.history ≠ later ++ .redeemed token new :: mid ++ .redeemed token new' :: early
  /-- a link that is redeemed was issued, and since then no link was issued or redeemed -/
  newest : ∀ token later before new, w.history = later ++ .redeemed token new :: before →
    ∃ mid early, before = mid ++ .issued token :: early ∧ ∀ e ∈ mid, e.isLink = false
  /-- a session that is accepted after a redemption was opened after it, and not with an earlier password -/
  password : ∀ i token link new later mid mid' early,
    w.history = later ++ .accepted i token :: mid ++ .loaded i token :: mid' ++ .redeemed link new :: early →
    (∀ t, .loaded i t ∉ mid) → ∀ expected replacement, .opened token expected replacement ∈ w.history →
    .opened token expected replacement ∈ mid' ∧ ∀ old, expected = some old → old ∉ passwords first early

theorem accepted_spec {first : String} {history later mid early : List (Event ι)} {i : ι} {token : String}
    (h : Each (Event.Justified first) history)
    (hsplit : history = later ++ .accepted i token :: mid ++ .loaded i token :: early)
    (hmid : ∀ t, .loaded i t ∉ mid) : ¬ FoundOver token early ∧ ∃ x p, .opened token x p ∈ sinceRedeemed early := by
  rw [hsplit, append_assoc, cons_append] at h
  obtain ⟨mid', early', heq, hmid', hover, hopened⟩ := h.at.2
  obtain ⟨-, rfl⟩ := latest_unique heq (hmid token) (hmid' token)
  exact ⟨hover, hopened⟩

theorem Settled.notRevived {first : String} {w : World ι} (h : Settled first w) : NotRevived first w := by
  have hhistory := h.history
  refine ⟨h.one, ?_, ?_, ?_, ?_⟩
  · intro i token later mid early hsplit hmid
    exact (accepted_spec hhistory hsplit hmid).1
  · intro token later mid early new new' hsplit
    rw [hsplit, append_assoc, cons_append] at hhistory
    have hissued := mem_of_latestLink hhistory.at.2
    have hbefore : Each (Event.Justified first) (mid ++ .redeemed token new' :: early) := hhistory.of_append.2
    obtain ⟨mid', early', hearly, -⟩ := exists_issued_of_latestLink hbefore.at.2
    have hsame : mid ++ .redeemed token new' :: early = (mid ++ .redeemed token new' :: mid') ++ .issued token :: early' := by
      rw [hearly, append_assoc]
      rfl
    rw [hsame] at hbefore
    exact issued_not_mem hbefore (mem_append_left _ hissued)
  · intro token later before new hsplit
    rw [hsplit] at hhistory
    exact exists_issued_of_latestLink hhistory.at.2
  · intro i token link new later mid mid' early hsplit hmid x p hopened
    rw [append_assoc, cons_append] at hsplit
    obtain ⟨-, x', p', hsince⟩ := accepted_spec hhistory hsplit hmid
    have hmem := mem_of_sinceRedeemed hsince
    obtain ⟨a, b, rfl⟩ := append_of_mem hmem
    have hopening : w.history = (later ++ .accepted i token :: mid ++ .loaded i token :: a) ++
        .opened token x' p' :: (b ++ .redeemed link new :: early) := by
      rw [hsplit]
      simp only [append_assoc, cons_append]
    rw [hopening] at hhistory hopened
    obtain ⟨-, rfl, rfl⟩ := Event.opened.inj (opened_unique hhistory hopened)
    refine ⟨hmem, ?_⟩
    rintro old rfl
    exact head_password_not_mem hhistory.of_append.2 (hhistory.at.2.2 old rfl)

section Main

variable [DecidableEq ι] {touchSeconds clock : ℕ} {account : AccountRow} {w : World ι}

omit [DecidableEq ι] in
theorem Sound.start (account : AccountRow) (clock : ℕ) : Sound account.matKhau (World.start account clock : World ι) where
  locking := fun _ _ hwritten => absurd rfl hwritten
  processes := fun _ => .ended (fun _ => rfl) rfl trivial
  settled := by
    refine ⟨⟨account, rfl, rfl⟩, ?_, ?_, ?_, ?_, ?_, trivial⟩
    · exact fun _ _ _ _ hr => nomatch hr
    · exact fun _ _ hr => nomatch hr
    · exact fun _ _ _ _ hopened => nomatch hopened
    · exact fun _ _ hr => nomatch hr
    · rintro token ⟨reason, -, hfound⟩
      cases hfound

/-- In every run in which touches and findings are in time, sessions and links are not revived. -/
theorem sessions_not_revived (h : Reached touchSeconds account clock Timely w) : NotRevived account.matKhau w := by
  have hsound : Sound account.matKhau w := by
    induction h with
    | start => exact .start account clock
    | step _ hstep htimely ih => exact ih.step hstep htimely
  exact hsound.settled.notRevived

end Main

section Samples

def World.runStatement (w : World ℕ) (i : ℕ) : World ℕ :=
  match (w.task i).next (w.tables.view i) w.clock with
  | some (request, t) => w.goOn (w.tables.exec i request) i t none
  | none => w

def World.runCommit (w : World ℕ) (i : ℕ) : World ℕ :=
  match (w.task i).finish with
  | some (e, t) => w.goOn (w.tables.commit i) i t e
  | none => w

def Alone (w : World ℕ) (i : ℕ) : Prop := ∀ k j, w.tables.locked k = some j → j = i

variable {touchSeconds clock : ℕ} {account : AccountRow} {P : World ℕ → Option (Event ℕ) → Prop} {w : World ℕ} {i : ℕ}

theorem Reached.runStatement (h : Reached touchSeconds account clock P w) (halone : Alone w i)
    (hnext : ((w.task i).next (w.tables.view i) w.clock).isSome = true) (hP : P w none) :
    Reached touchSeconds account clock P (w.runStatement i) ∧ Alone (w.runStatement i) i := by
  obtain ⟨⟨request, t⟩, heq⟩ := isSome_iff_exists.mp hnext
  have hready : w.tables.Ready i request := by
    cases request with
    | read => trivial
    | lock k => exact fun j => halone k j
    | write statement => exact fun k _ j => halone k j
  unfold World.runStatement
  rw [heq]
  refine ⟨h.step (.statement i request t heq hready) hP, fun k j hj => ?_⟩
  cases request with
  | read => exact halone k j hj
  | lock k' =>
    change Function.update w.tables.locked k' (some i) k = some j at hj
    by_cases hk : k = k'
    · subst hk
      rw [Function.update_self] at hj
      exact (some.inj hj).symm
    · rw [Function.update_of_ne hk] at hj
      exact halone k j hj
  | write statement =>
    change (if (statement k (w.tables.view i k)).isSome then some i else w.tables.locked k) = some j at hj
    split at hj
    · exact (some.inj hj).symm
    · exact halone k j hj

theorem Reached.runCommit (h : Reached touchSeconds account clock P w) (halone : Alone w i) {e : Option (Event ℕ)}
    {t : Task} (hfinish : (w.task i).finish = some (e, t)) (hfresh : ∀ x, e = some x → x.Fresh account.matKhau w.history)
    (hP : P w e) (j : ℕ) :
    Reached touchSeconds account clock P (w.runCommit i) ∧ Alone (w.runCommit i) j := by
  unfold World.runCommit
  rw [hfinish]
  refine ⟨h.step (.commit i e t hfinish hfresh) hP, fun k j' hj => ?_⟩
  obtain ⟨hlocked, hne⟩ := locked_of_release hj
  exact absurd (halone k j' hlocked) hne

def World.runStatements (w : World ℕ) (i : ℕ) : ℕ → World ℕ
  | 0 => w
  | n + 1 => (w.runStatements i n).runStatement i

/-- Process `i` starts a task, executes `n` statements and commits. -/
def World.runTask (w : World ℕ) (i n : ℕ) (t : Task) : World ℕ :=
  ((w.goOn w.tables i t none).runStatements i n).runCommit i

theorem Reached.runTask (h : Reached touchSeconds account clock P w) (halone : Alone w i) (n : ℕ) (t : Task) {t' : Task}
    {e : Option (Event ℕ)} {w' : ℕ → World ℕ} (hidle : w.task i = .idle) (hstarts : t.Starts w.clock)
    (hw' : (w.goOn w.tables i t none).runStatements i = w')
    (hnext : ∀ k < n, (((w' k).task i).next ((w' k).tables.view i) (w' k).clock).isSome = true)
    (hfinish : ((w' n).task i).finish = some (e, t'))
    (hfresh : ∀ x ∈ e, x ∉ (w' n).history ∧
      ∀ passwordHash ∈ x.password, passwordHash ∉ passwords account.matKhau (w' n).history)
    (hP : ∀ w, P w none ∧ P w e) (j : ℕ) :
    Reached touchSeconds account clock P (w.runTask i n t) ∧ Alone (w.runTask i n t) j := by
  subst hw'
  have hrun : ∀ k ≤ n, Reached touchSeconds account clock P ((w.goOn w.tables i t none).runStatements i k) ∧
      Alone ((w.goOn w.tables i t none).runStatements i k) i := by
    intro k hk
    induction k with
    | zero => exact ⟨h.step (.start i t hidle hstarts) (hP _).1, halone⟩
    | succ k ih =>
      obtain ⟨hreached, halone'⟩ := ih (by omega)
      exact hreached.runStatement halone' (hnext k hk) (hP _).1
  obtain ⟨hreached, halone'⟩ := hrun n n.le_refl
  refine hreached.runCommit halone' hfinish (fun x hx => ?_) (hP _).2 j
  obtain ⟨hnew, hpassword⟩ := hfresh x hx
  exact ⟨fun token heq => heq ▸ hnew, fun passwordHash heq => hpassword passwordHash heq⟩

def sampleAccount : AccountRow := ⟨"h0", true⟩

def sampleLogin : Login := ⟨"s", 100000, 3600, some "h0", none⟩

def sampleOpened : World ℕ := World.runTask (.start sampleAccount 1000) 0 4 (.login .begun sampleLogin 1000)

theorem reached_sampleOpened (hP : ∀ w, P w none ∧ P w (some (.opened "s" (some "h0") none))) (j : ℕ) :
    Reached 60 sampleAccount 1000 P sampleOpened ∧ Alone sampleOpened j :=
  Reached.start.runTask (fun _ _ hj => nomatch hj) 4 (.login .begun sampleLogin 1000) rfl rfl rfl (by decide) rfl
    (by decide) hP j

def sampleSession : SessionRow := ⟨1000, 4600, 100000, none⟩

/-- A check by process `i` loads a session. -/
def World.loadSample (w : World ℕ) (i : ℕ) (token : String) (row : SessionRow) : World ℕ :=
  w.goOn w.tables i (.check token ⟨true, row⟩) (some (.loaded i token))

def World.judgeSample (w : World ℕ) (i : ℕ) (e : Event ℕ) : World ℕ := w.goOn w.tables i .idle (some e)

/-- A link is issued and redeemed, and there is a login with the new password. -/
def sampleReopened : World ℕ :=
  ((sampleOpened.runTask 0 3 (.link .begun ⟨"l", 900, true⟩ 1000)).runTask 0 7 (.redeem .begun ⟨"l", "h1"⟩ 1000)).runTask
    0 4 (.login .begun ⟨"t", 100000, 3600, some "h1", none⟩ 1000)

/-- The first session ends with the redemption; the second one is accepted. -/
theorem sessions_not_revived_sample : NotRevived sampleAccount.matKhau
    ((((sampleReopened.loadSample 1 "s" { sampleSession with revokedAt := some 1000 }).judgeSample 1
        (.found "s" .sessionRevoked)).loadSample 1 "t" sampleSession).judgeSample 1 (.accepted 1 "t")) := by
  obtain ⟨hopened, halone⟩ := reached_sampleOpened (P := Timely) (fun _ => ⟨trivial, trivial⟩) 0
  obtain ⟨hissued, halone⟩ := hopened.runTask halone 3 (.link .begun ⟨"l", 900, true⟩ 1000) rfl rfl rfl (by decide) rfl
    (by decide) (fun _ => ⟨trivial, trivial⟩) 0
  obtain ⟨hredeemed, halone⟩ := hissued.runTask halone 7 (.redeem .begun ⟨"l", "h1"⟩ 1000) rfl rfl rfl (by decide) rfl
    (by decide) (fun _ => ⟨trivial, trivial⟩) 0
  obtain ⟨hreopened, -⟩ := hredeemed.runTask halone 4 (.login .begun ⟨"t", 100000, 3600, some "h1", none⟩ 1000)
    rfl rfl rfl (by decide) rfl (by decide) (fun _ => ⟨trivial, trivial⟩) 0
  have hloaded := hreopened.step (.load 1 "s" ⟨"h1", true⟩ { sampleSession with revokedAt := some 1000 } rfl rfl rfl) trivial
  have hfound := hloaded.step (.reject 1 "s" _ .sessionRevoked rfl (by decide)) trivial
  have hreloaded := hfound.step (.load 1 "t" ⟨"h1", true⟩ sampleSession rfl rfl rfl) trivial
  exact sessions_not_revived (hreloaded.step (.accept 1 "t" ⟨true, sampleSession⟩ rfl (by decide)) trivial)

/-- Process 1 has found the session valid, and begins to touch it ten seconds before it is idle for too
long; then twenty seconds pass. -/
def sampleTouching : World ℕ :=
  let w := ({ sampleOpened with clock := sampleOpened.clock + 3590 }).loadSample 1 "s" sampleSession
  { w.goOn w.tables 1 (.touch none "s" ⟨true, sampleSession⟩ 3600 4590) none with clock := 4590 + 20 }

/-- A session that was found idle for too long is accepted again. -/
theorem session_revived_by_touch :
    ∃ w : World ℕ, Reached 60 sampleAccount 1000 (fun _ _ => True) w ∧ ¬ NotRevived sampleAccount.matKhau w := by
  obtain ⟨hopened, halone⟩ := reached_sampleOpened (P := fun _ _ => True) (fun _ => ⟨trivial, trivial⟩) 1
  have htouching : Reached 60 sampleAccount 1000 (fun _ _ => True) sampleTouching := by
    have hloaded := (hopened.step (.advance 3590) trivial).step (.load 1 "s" sampleAccount sampleSession rfl rfl rfl) trivial
    have htouched := hloaded.step (.touch 1 "s" ⟨true, sampleSession⟩ 3600 rfl (by decide) (by decide)) trivial
    exact htouched.step (.advance 20) trivial
  have hfound := (htouching.step (.load 2 "s" sampleAccount sampleSession rfl rfl rfl) trivial).step
    (.reject 2 "s" ⟨true, sampleSession⟩ .sessionIdleExpired rfl (by decide)) trivial
  obtain ⟨hwritten, halone'⟩ := hfound.runStatement (i := 1) halone (by decide) trivial
  obtain ⟨hextended, -⟩ := hwritten.runCommit halone' (e := some (.extended "s")) rfl (by
      rintro x hx
      cases hx
      exact ⟨(fun token heq => nomatch heq), fun passwordHash heq => nomatch heq⟩) trivial 3
  have haccepted := (hextended.step (.load 3 "s" sampleAccount ⟨4590, 8190, 100000, none⟩ rfl rfl rfl) trivial).step
    (.accept 3 "s" ⟨true, ⟨4590, 8190, 100000, none⟩⟩ rfl (by decide)) trivial
  refine ⟨_, haccepted, fun hnot => ?_⟩
  exact hnot.ended 3 "s" [] [] _ rfl (by simp) ⟨.sessionIdleExpired, by decide, by decide⟩

end Samples

end Bidding.Auth
